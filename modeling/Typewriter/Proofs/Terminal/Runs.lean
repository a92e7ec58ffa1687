import Typewriter.Proofs.Terminal.Interleavings

/-!
# Runs

`Terminal.run` tells how a run ends for which the clock stands still.  It lets the player serve each
line at once, which is one interleaving among many, and `outcome_of_run` says that it stands for all
of them: where it plays a script to a last frame, each interleaving that ends before the clock has
moved ends with that frame, and where it breaks off, each interleaving fails.
-/

namespace Typewriter

namespace Terminal

variable {b next last : Playback} {p₀ p q : Performance} {setup : Setup} {script : Script}
  {alarm : Alarm} {lines origin : Nat}

/-! ## Lines while the clock stands still -/

theorem comesTo_of_pending (hpending : p.pending = some alarm) (lines : Nat) :
    ComesTo p lines alarm :=
  ⟨0, Nat.zero_le lines, p, rfl, hpending⟩

/-- An alarm is pending at once, or requests lead to it behind the first of them. -/
theorem comesTo_succ_iff (hadvance : p.advance = .ok q) :
    ComesTo p (lines + 1) alarm ↔ p.pending = some alarm ∨ ComesTo q lines alarm := by
  constructor
  · rintro ⟨few, hfew, r, hadvances, hpending⟩
    cases few with
    | zero =>
        obtain rfl := Except.ok.inj hadvances
        exact .inl hpending
    | succ few =>
        rw [advanceTimes_succ hadvance] at hadvances
        exact .inr ⟨few, Nat.le_of_succ_le_succ hfew, r, hadvances, hpending⟩
  · rintro (hpending | ⟨few, hfew, r, hadvances, hpending⟩)
    · exact comesTo_of_pending hpending (lines + 1)
    · refine ⟨few + 1, Nat.succ_le_succ hfew, r, ?_, hpending⟩
      rw [advanceTimes_succ hadvance]
      exact hadvances

/-- No time has passed since the start, and the clock could wait for the pending alarm, which is
armed. -/
structure StandsStill (b : Playback) (origin : Nat) : Prop extends b.Attentive where
  origin_eq : b.origin = origin
  now_eq : b.now = 0
  pending_armable : ∀ alarm, b.performance.pending = some alarm → alarm.delay.ArmableAt origin

theorem StandsStill.clock_eq (hstands : StandsStill b origin) : b.clock = origin := by
  rw [Playback.clock, hstands.origin_eq, hstands.now_eq, Nat.zero_mul, Nat.add_zero]

theorem standsStill_of_arm (hcoherent : p.Coherent)
    (harm : (Playback.opening p origin).arm = .ok b) :
    StandsStill b origin ∧ b.performance = p := by
  have hattentive : b.Attentive := Playback.attentive_of_arm hcoherent rfl harm
  have hb := Playback.eq_of_arm harm
  have hperformance : b.performance = p := by
    rw [hb]
    rfl
  refine ⟨⟨hattentive, ?_, ?_, ?_⟩, hperformance⟩
  · rw [hb]
    rfl
  · rw [hb]
    rfl
  · rw [hperformance]
    exact Playback.armableAt_of_arm harm nofun

theorem StandsStill.continueWith (hstands : StandsStill b origin) (hcoherent : p.Coherent)
    (hnext : b.continueWith (.ok p) = .ok next) :
    StandsStill next origin ∧ next.performance = p := by
  obtain ⟨hattentive, hperformance, hnow⟩ := Playback.attentive_of_continueWith hcoherent hnext
  refine ⟨⟨hattentive, ?_, hnow.trans hstands.now_eq, ?_⟩, hperformance⟩
  · exact (Playback.origin_of_continueWith hnext).trans hstands.origin_eq
  · rw [hperformance, ← hstands.origin_eq]
    refine Playback.armableAt_of_continueWith hnext fun armed harmed => ?_
    rw [hstands.origin_eq]
    exact hstands.pending_armable armed.alarm (hstands.pending_eq harmed)

/-- If the clock can wait for all alarms that the lines lead to, the player comes to their end. -/
theorem StandsStill.exists_goOn (hstands : StandsStill b origin)
    (hadvances : advanceTimes b.performance lines = .ok p)
    (harmable : ∀ alarm, ComesTo b.performance lines alarm → alarm.delay.ArmableAt origin) :
    ∃ last, goOn b lines = .ok last := by
  induction lines generalizing b with
  | zero => exact ⟨b, rfl⟩
  | succ lines ih =>
      cases hadvance : b.performance.advance with
      | error fault =>
          rw [advanceTimes, hadvance] at hadvances
          contradiction
      | ok q =>
          rw [advanceTimes_succ hadvance] at hadvances
          have hcoherent : q.Coherent :=
            (hstands.coherent.course_advance hadvance).coherent hstands.coherent
          obtain ⟨next, hnext⟩ : ∃ next, b.continueWith (.ok q) = .ok next := by
            refine Playback.exists_arm fun alarm hpending => ?_
            rw [Playback.clock_publish]
            show alarm.delay.ArmableAt b.clock
            rw [(Playback.publish_eq { b with performance := q }).1] at hpending
            rw [hstands.clock_eq]
            exact harmable alarm
              ((comesTo_succ_iff hadvance).mpr (.inr (comesTo_of_pending hpending lines)))
          obtain ⟨hnext_stands, rfl⟩ := hstands.continueWith hcoherent hnext
          obtain ⟨last, hlast⟩ := ih hnext_stands hadvances fun alarm hcomes =>
            harmable alarm ((comesTo_succ_iff hadvance).mpr (.inr hcomes))
          refine ⟨last, ?_⟩
          rw [goOn, hadvance, hnext]
          exact hlast

/-- If the player comes to the end of the lines, they have made the performance what it is, and the
clock could wait for all alarms that they led to. -/
theorem StandsStill.of_goOn (hstands : StandsStill b origin) (hlast : goOn b lines = .ok last) :
    advanceTimes b.performance lines = .ok last.performance ∧
      ∀ alarm, ComesTo b.performance lines alarm → alarm.delay.ArmableAt origin := by
  induction lines generalizing b with
  | zero =>
      obtain rfl := Except.ok.inj hlast
      refine ⟨rfl, ?_⟩
      rintro alarm ⟨few, hfew, q, hadvances, hpending⟩
      obtain rfl := Nat.le_zero.mp hfew
      obtain rfl := Except.ok.inj hadvances
      exact hstands.pending_armable alarm hpending
  | succ lines ih =>
      rw [goOn] at hlast
      cases hnext : b.continueWith b.performance.advance with
      | error fault =>
          rw [hnext] at hlast
          contradiction
      | ok next =>
          rw [hnext] at hlast
          obtain ⟨q, hadvance⟩ := Playback.exists_of_continueWith hnext
          rw [hadvance] at hnext
          have hcoherent : q.Coherent :=
            (hstands.coherent.course_advance hadvance).coherent hstands.coherent
          obtain ⟨hnext_stands, rfl⟩ := hstands.continueWith hcoherent hnext
          obtain ⟨hadvances, harmable⟩ := ih hnext_stands hlast
          rw [advanceTimes_succ hadvance]
          refine ⟨hadvances, fun alarm hcomes => ?_⟩
          rcases (comesTo_succ_iff hadvance).mp hcomes with hpending | hlater
          · exact hstands.pending_armable alarm hpending
          · exact harmable alarm hlater

/-- If the clock can wait for all alarms that the lines lead to, the script is played to their
end. -/
theorem exists_play (hstart : Performance.start setup script = .ok p₀)
    (hadvances : advanceTimes p₀ lines = .ok p)
    (harmable : ∀ alarm, ComesTo p₀ lines alarm → alarm.delay.ArmableAt origin) :
    ∃ b, play setup script lines origin = .ok b := by
  obtain ⟨b, harm⟩ := Playback.exists_arm (b := Playback.opening p₀ origin)
    fun alarm hpending => by
      rw [Playback.clock_opening]
      exact harmable alarm (comesTo_of_pending hpending lines)
  obtain ⟨hstands, rfl⟩ := standsStill_of_arm (Performance.coherent_of_start hstart) harm
  obtain ⟨last, hlast⟩ := hstands.exists_goOn hadvances harmable
  refine ⟨last, ?_⟩
  rw [play, hstart]
  dsimp only
  rw [harm]
  exact hlast

theorem of_play (hstart : Performance.start setup script = .ok p₀)
    (hplay : play setup script lines origin = .ok b) :
    advanceTimes p₀ lines = .ok b.performance ∧
      ∀ alarm, ComesTo p₀ lines alarm → alarm.delay.ArmableAt origin := by
  rw [play, hstart] at hplay
  obtain ⟨first, harm, hlast⟩ := bind_eq_ok hplay
  obtain ⟨hstands, rfl⟩ := standsStill_of_arm (Performance.coherent_of_start hstart) harm
  exact hstands.of_goOn hlast

/-! ## Interleavings -/

namespace Process

/-- What `Terminal.run` tells of a run holds of every interleaving: of the last frame as long as the
clock stands still, and of a failure however long they take. -/
theorem outcome_of_run {arguments : List String} {here : Disk.Place} {input rest : ByteArray}
    {content : Except Disk.Fault ByteArray} {options : Options}
    (hoptions : Options.ofArguments arguments = .ok options)
    (hread : here.read options.script input = (content, rest))
    (hscript : Script.ofFile options.script content = .ok script) (origin : Nat) :
    ∃ p₀, Performance.start options.setup script = .ok p₀ ∧
      ((∃ frame, run arguments here input origin = .played frame ∧
          ∀ s, Relation.ReflTransGen Step (opening p₀ origin rest) s → (∀ t, ¬ Step s t) →
            s.clock = origin → s.duty = .finished ∧ s.drawn.getLast? = some frame) ∨
        ∃ fault, run arguments here input origin = .broken fault ∧
          ∀ s, Relation.ReflTransGen Step (opening p₀ origin rest) s → (∀ t, ¬ Step s t) →
            s.duty = .failed) := by
  have hfits : options.setup.tempo.Fits :=
    Options.fits_of_areRead (Options.readsRests_ofArguments _ _ hoptions)
  obtain ⟨p₀, hstart⟩ :=
    Performance.exists_walkOn (p := { setup := options.setup, script }) hfits 0
  obtain ⟨p, hadvances, hends⟩ := ends_of_start hstart hfits origin rest
  refine ⟨p₀, hstart, ?_⟩
  simp only [run, hoptions, hread, hscript]
  cases hplay : play options.setup script (lineCount rest) origin with
  | ok b =>
      obtain ⟨hsame, harmable⟩ := of_play hstart hplay
      obtain rfl := Except.ok.inj (hadvances.symm.trans hsame)
      refine .inl ⟨_, rfl, fun s hreaches hcomplete hclock => ?_⟩
      rcases hends s hreaches hcomplete with ⟨hduty, hdrawn, -⟩ | ⟨-, alarm, hcomes, hlong⟩
      · exact ⟨hduty, hdrawn⟩
      · exact absurd (harmable alarm hcomes) (hclock ▸ hlong)
  | error fault =>
      refine .inr ⟨fault, rfl, fun s hreaches hcomplete => ?_⟩
      rcases hends s hreaches hcomplete with ⟨-, -, harmable⟩ | ⟨hduty, -⟩
      · obtain ⟨b, hplayed⟩ := exists_play hstart hadvances harmable
        rw [hplay] at hplayed
        contradiction
      · exact hduty

end Process

end Terminal

end Typewriter
