import Typewriter.Proofs.Playback.ClockEnd
import Typewriter.Proofs.Spoken
import Typewriter.Proofs.Terminal.Process

/-!
# Interleavings

However the reader, the main loop and the player take turns, the program comes to its end
(`not_forall_step`, `Sound.exists_step`), and never has to wait for time to pass
(`exists_complete`).  Where it ends well, the last frame is the one that all
lines of the input lead to, however many of them were still under way when the main loop left.  It
ends well as long as the clock can wait for every alarm that the lines lead to.  Where it could not
even have waited at the start, as for a pause of `2 ^ 63` seconds, every interleaving ends with a
failure.

The main statement is `last_frame_of_complete`.
-/

namespace Typewriter

namespace Terminal

/-- How far a duty is from the end. -/
def Duty.rank : Duty → Nat
  | .opening => 5
  | .drawing _ _ => 4
  | .waiting => 3
  | .leaving => 2
  | .closing => 1
  | .finished => 0
  | .failed => 0

/-- The last frame of a script when so many lines come in, and nothing else happens. -/
def lastFrame (setup : Setup) (script : Script) (lines : Nat) :
    Except Performance.Fault String := do
  return (← advanceTimes (← Performance.start setup script) lines).frame

/-! ## What the clock can wait for -/

section Clock

variable {p q : Performance} {alarm : Alarm} {count latest : Nat}

theorem playableUntil_of_advanceTimes (hcoherent : p.Coherent)
    (hplayable : p.PlayableUntil latest) (hadvances : advanceTimes p count = .ok q) :
    q.Coherent ∧ q.PlayableUntil latest := by
  induction count generalizing p with
  | zero => exact Except.ok.inj hadvances ▸ ⟨hcoherent, hplayable⟩
  | succ count ih =>
      obtain ⟨next, hadvance⟩ := Performance.exists_advance hplayable.fits
      rw [advanceTimes_succ hadvance] at hadvances
      have hcourse := hcoherent.course_advance hadvance
      exact ih (hcourse.coherent hcoherent) (hplayable.course hcourse hplayable.script_playable)
        hadvances

/-- The alarms that requests lead to can be armed as long as the pauses of the script can. -/
theorem ComesTo.armableAt (hcomes : ComesTo p count alarm) (hcoherent : p.Coherent)
    (hplayable : p.PlayableUntil latest) : alarm.delay.ArmableAt latest := by
  obtain ⟨few, -, q, hadvances, hpending⟩ := hcomes
  obtain ⟨hq, hplayable'⟩ := playableUntil_of_advanceTimes hcoherent hplayable hadvances
  exact hplayable'.armable_of_pending hq hpending

end Clock

namespace Process

variable {s t : Process} {p₀ : Performance} {count : Nat}

/-! ## No interleaving goes on for ever -/

/-- A bound on the number of steps that are left.  A line on its way from the input to the
performance costs less at each station. -/
def stepsLeft (s : Process) : Nat :=
  6 * s.unread.length + s.reading.toNat + 5 * s.entered + 4 * s.player.queue.length +
    3 * s.player.looking.toNat + 2 * s.changed.toNat + (if s.fate = .playing then 1 else 0) +
    s.duty.rank

theorem rank_dutyBehind_lt (screen : Screen) (first : Bool) :
    (dutyBehind screen first).rank < (Duty.drawing screen first).rank := by
  unfold dutyBehind
  split
  · exact Nat.lt_of_sub_eq_succ rfl
  · exact Nat.lt_succ_self 3

theorem stepsLeft_lt_of_reader (hstep : ReaderStep s t) : t.stepsLeft < s.stepsLeft := by
  cases hstep with
  | read line rest _ hreading hunread _ =>
      simp only [stepsLeft, hunread, List.length_cons]
      omega
  | garbled line rest _ hreading hunread _ =>
      simp only [stepsLeft, hreading, Bool.toNat_true, Bool.toNat_false]
      omega
  | exhausted _ hreading _ =>
      simp only [stepsLeft, hreading, Bool.toNat_true, Bool.toNat_false]
      omega

theorem stepsLeft_lt_of_loop (hstep : LoopStep s t) : t.stepsLeft < s.stepsLeft := by
  cases hstep with
  | takeFirst hduty =>
      simp only [stepsLeft, hduty, Duty.rank, Bool.toNat_false]
      omega
  | draw screen first hduty =>
      have hrank := rank_dutyBehind_lt screen first
      simp only [stepsLeft, hduty]
      omega
  | notice hduty hchanged =>
      simp only [stepsLeft, hduty, hchanged, Duty.rank, Bool.toNat_true, Bool.toNat_false]
      omega
  | forward entered next hduty hentered hfate hsent =>
      cases hsent with
      | send =>
          simp only [stepsLeft, hentered, List.length_append, List.length_singleton]
          omega
  | refused entered hduty hentered _ =>
      simp only [stepsLeft, hduty, hentered, Duty.rank]
      omega
  | deserted hduty _ _ =>
      simp only [stepsLeft, hduty, Duty.rank]
      omega
  | inputEnds hduty _ _ =>
      simp only [stepsLeft, hduty, Duty.rank]
      omega
  | letGo hduty =>
      simp only [stepsLeft, hduty, Duty.rank]
      omega
  | finish hduty _ =>
      simp only [stepsLeft, hduty, Duty.rank]
      omega
  | fail hduty _ =>
      simp only [stepsLeft, hduty, Duty.rank]
      omega

theorem stepsLeft_lt_of_player (hstep : PlayerStep s t) : t.stepsLeft < s.stepsLeft := by
  cases hstep with
  | look elapsed time pending next hfate _ hlooked =>
      cases hlooked with
      | look hlooking =>
          have hwaiting : s.player.looking = true := hlooking
          have hchanged := Bool.toNat_le
            (s.changed || decide ((s.playerAfter elapsed).look.published ≠ s.player.published))
          simp only [stepsLeft, hwaiting, playerAfter, Player.look, Bool.toNat_true,
            Bool.toNat_false] at hchanged ⊢
          omega
  | overrun elapsed hfate hlooking _ =>
      have hchanged := Bool.toNat_le
        (s.changed || decide (s.player.performance.screen ≠ s.player.published))
      simp only [stepsLeft, hfate, hlooking, playerAfter, if_true, reduceCtorEq, if_false,
        Bool.toNat_true, Bool.toNat_false] at hchanged ⊢
      omega
  | receive request next hfate hreceived =>
      cases hreceived with
      | receive _ rest p hwaiting hqueue _ =>
          simp only [stepsLeft, hwaiting, hqueue, List.length_cons, Bool.toNat_true,
            Bool.toNat_false]
          omega
  | breakOff _ _ _ hfate _ _ _ =>
      simp only [stepsLeft, hfate, if_true, reduceCtorEq, if_false]
      omega
  | stop _ hfate _ _ =>
      simp only [stepsLeft, hfate, if_true, reduceCtorEq, if_false]
      omega

/-- Every step brings the end nearer. -/
theorem stepsLeft_lt (hstep : Step s t) : t.stepsLeft < s.stepsLeft := by
  cases hstep with
  | reader hstep => exact stepsLeft_lt_of_reader hstep
  | loop hstep => exact stepsLeft_lt_of_loop hstep
  | player hstep => exact stepsLeft_lt_of_player hstep

/-- No interleaving is longer than the bound at its beginning. -/
theorem not_forall_step (run : Nat → Process) : ¬ ∀ k, Step (run k) (run (k + 1)) := by
  intro hsteps
  have hleft (k : Nat) : (run k).stepsLeft + k ≤ (run 0).stepsLeft := by
    induction k with
    | zero => exact Nat.le_refl _
    | succ k ih =>
        have hlt := stepsLeft_lt (hsteps k)
        omega
  have hbeyond := hleft ((run 0).stepsLeft + 1)
  omega

/-- A player that is going to look can do so, or break off, at once. -/
theorem exists_look (hfate : s.fate = .playing) (hlooking : s.player.looking = true) :
    ∃ t, PlayerStep s t ∧ t.clock = s.clock := by
  by_cases hoverruns : s.Overruns 0
  · exact ⟨_, .overrun 0 hfate hlooking hoverruns, rfl⟩
  · exact ⟨_, .look 0 _ _ _ hfate hoverruns (.look hlooking), rfl⟩

/-- If something can happen, something can happen before time passes. -/
theorem Step.exists_still (hstep : Step s t) : ∃ u, Step s u ∧ u.clock = s.clock := by
  cases hstep with
  | reader hstep =>
      refine ⟨t, .reader hstep, ?_⟩
      cases hstep <;> rfl
  | loop hstep =>
      refine ⟨t, .loop hstep, ?_⟩
      cases hstep with
      | forward count next _ _ _ hsent =>
          cases hsent
          rfl
      | _ => rfl
  | player hstep =>
      have hlooks (hfate : s.fate = .playing) (hlooking : s.player.looking = true) :
          ∃ u, Step s u ∧ u.clock = s.clock := by
        obtain ⟨u, hlook, hclock⟩ := exists_look hfate hlooking
        exact ⟨u, .player hlook, hclock⟩
      cases hstep with
      | look elapsed time pending next hfate _ hlooked =>
          cases hlooked with
          | look hlooking => exact hlooks hfate hlooking
      | overrun elapsed hfate hlooking _ => exact hlooks hfate hlooking
      | receive request next hfate hreceived =>
          refine ⟨_, .player (.receive request next hfate hreceived), ?_⟩
          cases hreceived
          rfl
      | breakOff request rest fault hfate hwaiting hqueue happly =>
          exact ⟨_, .player (.breakOff request rest fault hfate hwaiting hqueue happly), rfl⟩
      | stop hduty hfate hwaiting hqueue =>
          exact ⟨_, .player (.stop hduty hfate hwaiting hqueue), rfl⟩

/-- Every interleaving can be brought to its end before time passes. -/
theorem exists_complete (s : Process) :
    ∃ t, Relation.ReflTransGen Step s t ∧ (∀ u, ¬ Step t u) ∧ t.clock = s.clock := by
  by_cases hlast : ∃ t, Step s t
  · -- The step may take its time, so another is taken in its place.
    obtain ⟨_, hstep⟩ := hlast
    obtain ⟨t, hstill, hclock⟩ := hstep.exists_still
    obtain ⟨last, hreaches, hcomplete, hlast⟩ := exists_complete t
    exact ⟨last, .head hstill hreaches, hcomplete, hlast.trans hclock⟩
  · exact ⟨s, .refl, not_exists.mp hlast, rfl⟩
termination_by s.stepsLeft
decreasing_by exact stepsLeft_lt hstill

/-! ## No interleaving stops before the end -/

/-- A player that plays can look, break off, take up a request, or stop if it was let go. -/
theorem Sound.exists_player_step (hfits : p₀.setup.tempo.Fits) (hsound : Sound p₀ count s)
    (hduty : s.duty = .closing) (hfate : s.fate = .playing) : ∃ t, PlayerStep s t := by
  cases hlooking : s.player.looking with
  | true =>
      obtain ⟨t, hlook, -⟩ := exists_look hfate hlooking
      exact ⟨t, hlook⟩
  | false =>
      cases hqueue : s.player.queue with
      | nil => exact ⟨_, .stop hduty hfate hlooking hqueue⟩
      | cons request rest =>
          obtain rfl : request = .advance := hsound.queue_eq request (by simp [hqueue])
          obtain ⟨p, hadvance⟩ := Performance.exists_advance (hsound.setup_eq ▸ hfits)
          exact ⟨_, .receive .advance _ hfate (.receive .advance rest p hlooking hqueue hadvance)⟩

/-- A reader that reads can take a line, or stop. -/
theorem exists_reader_step (hruns : s.isOver = false) (hreading : s.reading = true) :
    ∃ t, ReaderStep s t := by
  cases hunread : s.unread with
  | nil => exact ⟨_, .exhausted hruns hreading hunread⟩
  | cons line rest =>
      cases hutf8 : isUtf8 line with
      | true => exact ⟨_, .read line rest hruns hreading hunread hutf8⟩
      | false => exact ⟨_, .garbled line rest hruns hreading hunread hutf8⟩

/-- A main loop that waits can take up a line, or find that it cannot be sent, or leave, unless the
reader goes on reading. -/
theorem exists_loop_step (hduty : s.duty = .waiting) (hreading : s.reading = false) :
    ∃ t, LoopStep s t := by
  cases hentered : s.entered with
  | zero => exact ⟨_, .inputEnds hduty hentered hreading⟩
  | succ entered =>
      by_cases hfate : s.fate = .playing
      · exact ⟨_, .forward entered _ hduty hentered hfate (.send .advance)⟩
      · exact ⟨_, .refused entered hduty hentered hfate⟩

/-- Until the program is over, something can happen. -/
theorem Sound.exists_step (hfits : p₀.setup.tempo.Fits) (hsound : Sound p₀ count s)
    (hruns : s.isOver = false) : ∃ t, Step s t := by
  cases hduty : s.duty with
  | opening => exact ⟨_, .loop (.takeFirst hduty)⟩
  | drawing screen first => exact ⟨_, .loop (.draw screen first hduty)⟩
  | waiting =>
      cases hreading : s.reading with
      | true =>
          obtain ⟨t, hstep⟩ := exists_reader_step hruns hreading
          exact ⟨t, .reader hstep⟩
      | false =>
          obtain ⟨t, hstep⟩ := exists_loop_step hduty hreading
          exact ⟨t, .loop hstep⟩
  | leaving => exact ⟨_, .loop (.letGo hduty)⟩
  | closing =>
      cases hfate : s.fate with
      | playing =>
          obtain ⟨t, hstep⟩ := hsound.exists_player_step hfits hduty hfate
          exact ⟨t, .player hstep⟩
      | stopped => exact ⟨_, .loop (.finish hduty hfate)⟩
      | broken => exact ⟨_, .loop (.fail hduty hfate)⟩
  | finished => simp [isOver, hduty] at hruns
  | failed => simp [isOver, hduty] at hruns

/-! ## The last frame -/

/-- Whatever was still under way when the main loop left makes no difference to the performance, and
leads to no other alarm. -/
theorem Sound.of_finished (hsound : Sound p₀ count s) (hduty : s.duty = .finished) :
    advanceTimes p₀ count = .ok s.player.performance ∧
      ∀ alarm, ComesTo p₀ count alarm → alarm.delay.ArmableAt s.origin := by
  have honDuty := hsound.onDuty
  have honFate := hsound.onFate
  rw [hduty] at honDuty
  obtain ⟨hsettled, hfate, -⟩ := honDuty
  rw [hfate] at honFate
  obtain ⟨hqueue, hlooking, -⟩ := honFate
  obtain ⟨done, hcount, hdone⟩ : ∃ done, done + s.ahead = count ∧ s.HasDone p₀ done := by
    rcases hsound.broken_or_done with hbroken | hdone
    · exact absurd (hfate.symm.trans hbroken) (by decide)
    · exact hdone
  -- From here on, the performance stays as it is.
  have hstays : ∀ more, done + more ≤ count →
      advanceTimes p₀ (done + more) = .ok s.player.performance := by
    intro more hle
    rw [advanceTimes_add hdone.advanceTimes_eq]
    rcases hsettled with ⟨hentered, hreading⟩ | hphase
    · have hahead : s.ahead = 0 := by simp [ahead, readable, hqueue, hentered, hreading]
      obtain rfl : more = 0 := by omega
      rfl
    · exact advanceTimes_of_ended (hsound.coherent.ended_of_phase_eq hphase) more
  refine ⟨hcount ▸ hstays s.ahead (Nat.le_of_eq hcount), ?_⟩
  -- An alarm of an earlier request was armed on the way, and the others are the pending one.
  rintro alarm ⟨few, hfew, q, hadvances, hpending⟩
  rcases Nat.lt_or_ge few done with hlt | hle
  · exact hdone.earlier_armable few hlt q alarm hadvances hpending
  · obtain ⟨more, rfl⟩ := Nat.exists_eq_add_of_le hle
    obtain rfl := Except.ok.inj ((hstays more hfew).symm.trans hadvances)
    exact hdone.pending_armable hlooking alarm hpending

/-- An interleaving that cannot go on has finished, with the frame of the performance that all
lines of the input lead to, or it has failed, at an alarm that the clock could not wait for. -/
theorem Sound.finished_or_failed {p : Performance} (hfits : p₀.setup.tempo.Fits)
    (hsound : Sound p₀ count s) (hcomplete : ∀ t, ¬ Step s t)
    (hadvances : advanceTimes p₀ count = .ok p) :
    (s.duty = .finished ∧ s.drawn.getLast? = some p.frame ∧
        ∀ alarm, ComesTo p₀ count alarm → alarm.delay.ArmableAt s.origin) ∨
      (s.duty = .failed ∧ ∃ alarm, ComesTo p₀ count alarm ∧ ¬ alarm.delay.ArmableAt s.clock) := by
  have hover : s.isOver = true := by
    cases hruns : s.isOver with
    | true => rfl
    | false =>
        obtain ⟨t, hstep⟩ := hsound.exists_step hfits hruns
        exact absurd hstep (hcomplete t)
  have honDuty := hsound.onDuty
  have honFate := hsound.onFate
  rcases of_decide_eq_true hover with hduty | hduty
  · obtain ⟨hlast, harmable⟩ := hsound.of_finished hduty
    rw [hduty] at honDuty
    obtain rfl := Except.ok.inj (hadvances.symm.trans hlast)
    exact .inl ⟨hduty, honDuty.2.2, harmable⟩
  · rw [hduty] at honDuty
    have hbroken : s.fate = .broken := honDuty
    rw [hbroken] at honFate
    exact .inr ⟨hduty, honFate⟩

theorem origin_eq_of_reaches {origin : Nat} {input : ByteArray}
    (hreaches : Relation.ReflTransGen Step (opening p₀ origin input) s) : s.origin = origin := by
  induction hreaches with
  | refl => rfl
  | tail _ hstep ih =>
      rw [← ih]
      cases hstep with
      | reader hstep => cases hstep <;> rfl
      | loop hstep => cases hstep <;> rfl
      | player hstep => cases hstep <;> rfl

/-- What becomes of every interleaving of a script that has started. -/
theorem ends_of_start {setup : Setup} {script : Script}
    (hstart : Performance.start setup script = .ok p₀) (hfits : setup.tempo.Fits) (origin : Nat)
    (input : ByteArray) :
    ∃ p, advanceTimes p₀ (lineCount input) = .ok p ∧
      ∀ s, Relation.ReflTransGen Step (opening p₀ origin input) s → (∀ t, ¬ Step s t) →
        (s.duty = .finished ∧ s.drawn.getLast? = some p.frame ∧
            ∀ alarm, ComesTo p₀ (lineCount input) alarm → alarm.delay.ArmableAt origin) ∨
          (s.duty = .failed ∧
            ∃ alarm, ComesTo p₀ (lineCount input) alarm ∧ ¬ alarm.delay.ArmableAt s.clock) := by
  have hcoherent : p₀.Coherent := Performance.coherent_of_start hstart
  have hsetup : p₀.setup = setup := (Performance.arrival_of_start hstart).record_eq.1
  rw [← hsetup] at hfits
  obtain ⟨p, hadvances⟩ := exists_advanceTimes hcoherent hfits (lineCount input)
  refine ⟨p, hadvances, fun s hreaches hcomplete => ?_⟩
  rw [← origin_eq_of_reaches hreaches]
  exact (sound_of_reaches hcoherent hfits hreaches).finished_or_failed hfits hcomplete hadvances

/-- However the reader, the main loop and the player take turns, the program ends, and it can end
before any more time passes.  It ends well, and the last frame is the one that is left when the
reader of the script asks to go on once for each line of the input that can be read; or it fails,
because these requests led to an alarm that the clock could not wait for.  It does not fail as long
as the clock can wait for the pauses of the script, and it does not end well if it could not wait
even at the start.  Of the reader of the arguments nothing is asked but that it reads rests as
`readRest` does. -/
theorem last_frame_of_complete {reader : List String → Except Options.Refusal Options}
    (hreader : Options.ReadsRests reader) {arguments : List String} {options : Options}
    (hoptions : reader arguments = .ok options) (noise : Nat → Nat) (script : Script)
    (origin : Nat) (input : ByteArray) :
    ∃ p₀ frame, Performance.start (options.setup.withNoise noise) script = .ok p₀ ∧
      lastFrame (options.setup.withNoise noise) script (lineCount input) = .ok frame ∧
      (∀ s, Relation.ReflTransGen Step (opening p₀ origin input) s → (∀ t, ¬ Step s t) →
        (s.duty = .finished ∧ s.drawn.getLast? = some frame ∧
            ∀ alarm, ComesTo p₀ (lineCount input) alarm → alarm.delay.ArmableAt origin) ∨
          (s.duty = .failed ∧
            ∃ alarm, ComesTo p₀ (lineCount input) alarm ∧ ¬ alarm.delay.ArmableAt s.clock)) ∧
      (∀ latest, latest + 3 * Options.longestMillis < Playback.clockEnd →
        script.PlayableUntil latest →
        ∀ alarm, ComesTo p₀ (lineCount input) alarm → alarm.delay.ArmableAt latest) ∧
      (∀ run : Nat → Process, run 0 = opening p₀ origin input →
        ¬ ∀ k, Step (run k) (run (k + 1))) ∧
      ∀ s, Relation.ReflTransGen Step (opening p₀ origin input) s →
        ∃ t, Relation.ReflTransGen Step s t ∧ (∀ u, ¬ Step t u) ∧ t.clock = s.clock := by
  have hrests : Options.AreRead options.rests := hreader arguments options hoptions
  have hplain := Options.plain_of_areRead hrests noise
  have hinitial : ({ setup := options.setup.withNoise noise, script } :
      Performance).setup.tempo.Fits := hplain.fits
  obtain ⟨p₀, hstart⟩ := Performance.exists_walkOn hinitial 0
  obtain ⟨p, hadvances, hends⟩ := ends_of_start hstart hplain.fits origin input
  refine ⟨p₀, p.frame, hstart, ?frame, hends, ?armable, fun run _ => not_forall_step run,
    fun s _ => exists_complete s⟩
  case frame =>
    rw [lastFrame, show Performance.start _ script = .ok p₀ from hstart]
    simp only [bind, Except.bind, hadvances, pure, Except.pure]
  case armable =>
    intro latest hlatest hscript alarm hcomes
    have hplayable : ({ setup := options.setup.withNoise noise, script } :
        Performance).PlayableUntil latest :=
      Performance.playableUntil_of_areRead hrests rfl hlatest hscript
    exact hcomes.armableAt (Performance.coherent_of_start hstart) (hplayable.start hstart)

/-- An alert comes before the first line of the script, and the second line of the input is no text,
so that the first one is all that counts. -/
theorem last_frame_of_complete_of_alert :
    ∃ options script p₀,
      Options.ofArguments ["--script", "a.script", "-d", "/"] = .ok options ∧
      Script.read "say \"/alert Look\"\nsay \"Hi\"\nsay \"Ho\"" = .ok script ∧
      Performance.start (options.setup.withNoise id) script = .ok p₀ ∧
      (∃ s, Relation.ReflTransGen Step
          (opening p₀ (1000 * nanosPerSecond) ⟨#[10, 255, 10, 65, 10]⟩) s ∧
        (∀ t, ¬ Step s t) ∧ s.clock = 1000 * nanosPerSecond) ∧
      ∀ s, Relation.ReflTransGen Step
          (opening p₀ (1000 * nanosPerSecond) ⟨#[10, 255, 10, 65, 10]⟩) s →
        (∀ t, ¬ Step s t) → s.clock + 3 * Options.longestMillis < Playback.clockEnd →
        s.duty = .finished ∧
          s.drawn.getLast? = some "\x1b[2J\x1b[1;1H[!] Look\r\n\r\nHi  ▼" := by
  have hcount : lineCount ⟨#[10, 255, 10, 65, 10]⟩ = 1 := by decide +kernel
  have hoptions : ∃ options, Options.ofArguments ["--script", "a.script", "-d", "/"] = .ok options ∧
      lastFrame (options.setup.withNoise id) [.line "/alert Look", .line "Hi", .line "Ho"] 1 =
        .ok "\x1b[2J\x1b[1;1H[!] Look\r\n\r\nHi  ▼" :=
    ⟨_, rfl, rfl⟩
  obtain ⟨options, hoptions, hlast⟩ := hoptions
  have hread : Script.read "say \"/alert Look\"\nsay \"Hi\"\nsay \"Ho\"" =
      .ok [.line "/alert Look", .line "Hi", .line "Ho"] := rfl
  obtain ⟨p₀, frame, hstart, hframe, hcomplete, harmable, -, hcompletes⟩ :=
    last_frame_of_complete Options.readsRests_ofArguments hoptions id
      [.line "/alert Look", .line "Hi", .line "Ho"] (1000 * nanosPerSecond)
      ⟨#[10, 255, 10, 65, 10]⟩
  rw [hcount] at hframe
  obtain rfl := Except.ok.inj (hlast.symm.trans hframe)
  have hexists := hcompletes _ .refl
  rw [clock_opening] at hexists
  refine ⟨options, _, p₀, hoptions, hread, hstart, hexists, fun s hreaches hends hclock => ?_⟩
  rcases hcomplete s hreaches hends with ⟨hduty, hdrawn, -⟩ | ⟨-, alarm, hcomes, hlong⟩
  · exact ⟨hduty, hdrawn⟩
  · have hplayable :
        Script.PlayableUntil [.line "/alert Look", .line "Hi", .line "Ho"] s.clock := by
      simp [Script.PlayableUntil]
    exact absurd (harmable s.clock hclock hplayable alarm hcomes) hlong

/-- Not every script that can be read ends well: at this pause every interleaving fails, whatever
the clock read at the start. -/
theorem failed_of_complete :
    ∃ options script p₀, Options.ofArguments ["--script", "a.script"] = .ok options ∧
      Script.read "wait 10000000000000000000s" = .ok script ∧
      Performance.start (options.setup.withNoise id) script = .ok p₀ ∧
      ∀ origin input,
        (∃ s, Relation.ReflTransGen Step (opening p₀ origin input) s ∧ (∀ t, ¬ Step s t) ∧
          s.clock = origin) ∧
        ∀ s, Relation.ReflTransGen Step (opening p₀ origin input) s → (∀ t, ¬ Step s t) →
          s.duty = .failed := by
  have hread : Script.read "wait 10000000000000000000s" =
      .ok [.pause ⟨10000000000000000000 * nanosPerSecond, by decide⟩] := by
    decide +kernel
  have hstarts : ∃ options p₀, Options.ofArguments ["--script", "a.script"] = .ok options ∧
      Performance.start (options.setup.withNoise id)
        [.pause ⟨10000000000000000000 * nanosPerSecond, by decide⟩] = .ok p₀ ∧
      p₀.pending =
        some ⟨0, 0, ⟨10000000000000000000 * nanosPerSecond, by decide⟩, .walkOn 1⟩ :=
    ⟨_, _, rfl, rfl, rfl⟩
  obtain ⟨options, p₀, hoptions, hstart, hpending⟩ := hstarts
  have hlong : ¬ Duration.ArmableAt ⟨10000000000000000000 * nanosPerSecond, by decide⟩ 0 := by
    decide
  have hfits : options.setup.tempo.Fits :=
    Options.fits_of_areRead (Options.readsRests_ofArguments _ _ hoptions)
  refine ⟨options, _, p₀, hoptions, hread, hstart, fun origin input => ⟨exists_complete _, ?_⟩⟩
  intro s hreaches hcomplete
  obtain ⟨p, -, hends⟩ := ends_of_start hstart hfits origin input
  rcases hends s hreaches hcomplete with ⟨-, -, harmable⟩ | ⟨hduty, -⟩
  · have hcomes : ComesTo p₀ (lineCount input) _ := ⟨0, Nat.zero_le _, p₀, rfl, hpending⟩
    exact absurd ((harmable _ hcomes).mono (Nat.zero_le _)) hlong
  · exact hduty

end Process

end Terminal

end Typewriter
