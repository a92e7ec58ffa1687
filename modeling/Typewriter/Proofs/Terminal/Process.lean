import Mathlib.Logic.Relation
import Typewriter.Proofs.Performance.Unbroken
import Typewriter.Proofs.Playback.Player
import Typewriter.Terminal

/-!
# The program as a process

While the program plays a script, three parties work side by side.  A reader takes the lines of the
input and enters each of them, until there are no more or one is no text in UTF-8.  A main loop
draws the screens that the player publishes, as far as it notices them, and sends the player a
request for each line that was entered; it leaves when it has drawn the end of the script, or when
the reader has closed the input and nothing is entered any more.  The player works through its
requests, and stops when none is left and the main loop has let go of it.  Then the main loop draws
the performance once more.

`Step` lists what each of them can do next.  No alarm is ever due here.  Time may pass all the same,
and the player takes notice of it when it looks: then it arms the pending alarm, and breaks off if
that goes beyond the end of the clock, as `Playback.arm` does.  If the player is gone before it was
let go of, the program fails.

The invariant is `Sound`.  Until the player breaks off, what is still under way leads the
performance to where all lines of the input lead it, and the main loop has not left before the input
ended, unless the script has ended.  And the player breaks off only where no clock of that reading
could wait for an alarm that the requests lead to.
-/

namespace Typewriter

namespace Terminal

/-- What the main loop is about to do. -/
inductive Duty where
  | opening
  /-- Draw a screen; the very first one is drawn before the loop. -/
  | drawing (screen : Screen) (first : Bool)
  /-- Take up what comes first: a change of the screen, or an entered line. -/
  | waiting
  | leaving
  /-- The player was let go, and is awaited. -/
  | closing
  | finished
  | failed
deriving DecidableEq

/-- What has become of the player. -/
inductive Fate where
  | playing
  | stopped
  | broken
deriving DecidableEq

/-- The program while it plays a script. -/
structure Process where
  /-- The lines of the input that were not read yet. -/
  unread : List (List UInt8)
  /-- Whether the reader goes on reading. -/
  reading : Bool := true
  /-- The number of lines that were entered and not taken up yet. -/
  entered : Nat := 0
  player : Player
  /-- The reading of the clock at the start, in nanoseconds. -/
  origin : Nat := 0
  fate : Fate := .playing
  /-- Whether a screen was published that the main loop has not noticed. -/
  changed : Bool := false
  duty : Duty := .opening
  /-- The frames that were drawn, the earliest first. -/
  drawn : List String := []

namespace Process

/-- Whether the program has come to its end. -/
def isOver (s : Process) : Bool :=
  s.duty = .finished ∨ s.duty = .failed

/-- The reading of the clock when the player last looked, in nanoseconds. -/
def clock (s : Process) : Nat :=
  s.origin + s.player.now

/-- The process at its beginning. -/
def opening (p : Performance) (origin : Nat) (input : ByteArray) : Process where
  unread := Text.lines 10 input.toList
  player := .opening p
  origin := origin

theorem clock_opening (p : Performance) (origin : Nat) (input : ByteArray) :
    (opening p origin input).clock = origin :=
  rfl

/-- Where the main loop goes on behind a drawn screen. -/
def dutyBehind (screen : Screen) (first : Bool) : Duty :=
  if first = false ∧ screen.phase = .ended then .leaving else .waiting

/-- The player some time later, when it has not done anything yet. -/
def playerAfter (s : Process) (elapsed : Nat) : Player :=
  { s.player with now := s.player.now + elapsed }

/-- The pending alarm is not armed yet, and some time later it cannot be armed any more. -/
def Overruns (s : Process) (elapsed : Nat) : Prop :=
  ∃ alarm, s.player.performance.pending = some alarm ∧
    s.player.armed.map Armed.alarm ≠ some alarm ∧ ¬ alarm.delay.ArmableAt (s.clock + elapsed)

/-- What the reader can do next. -/
inductive ReaderStep (s : Process) : Process → Prop where
  | read (line : List UInt8) (rest : List (List UInt8)) (runs : s.isOver = false)
      (reading_eq : s.reading = true) (unread_eq : s.unread = line :: rest)
      (isUtf8_eq : isUtf8 line = true) :
      ReaderStep s { s with unread := rest, entered := s.entered + 1 }
  | garbled (line : List UInt8) (rest : List (List UInt8)) (runs : s.isOver = false)
      (reading_eq : s.reading = true) (unread_eq : s.unread = line :: rest)
      (isUtf8_eq : isUtf8 line = false) : ReaderStep s { s with reading := false }
  | exhausted (runs : s.isOver = false) (reading_eq : s.reading = true)
      (unread_eq : s.unread = []) : ReaderStep s { s with reading := false }

/-- What the main loop can do next, with what stands before and behind it. -/
inductive LoopStep (s : Process) : Process → Prop where
  | takeFirst (duty_eq : s.duty = .opening) :
      LoopStep s { s with changed := false, duty := .drawing s.player.published true }
  | draw (screen : Screen) (first : Bool) (duty_eq : s.duty = .drawing screen first) :
      LoopStep s { s with
        drawn := s.drawn ++ [screen.frame (Event.lastAlert? s.player.performance.log)]
        duty := dutyBehind screen first }
  | notice (duty_eq : s.duty = .waiting) (changed_eq : s.changed = true) :
      LoopStep s { s with changed := false, duty := .drawing s.player.published false }
  | forward (count : Nat) (next : Player) (duty_eq : s.duty = .waiting)
      (entered_eq : s.entered = count + 1) (fate_eq : s.fate = .playing)
      (sent : Player.Step s.player (.sent .advance) next) :
      LoopStep s { s with entered := count, player := next }
  /-- The player is gone, and cannot be sent anything. -/
  | refused (count : Nat) (duty_eq : s.duty = .waiting) (entered_eq : s.entered = count + 1)
      (fate_ne : s.fate ≠ .playing) : LoopStep s { s with entered := count, duty := .failed }
  /-- The player is gone, and no screen will change any more. -/
  | deserted (duty_eq : s.duty = .waiting) (changed_eq : s.changed = false)
      (fate_ne : s.fate ≠ .playing) : LoopStep s { s with duty := .leaving }
  | inputEnds (duty_eq : s.duty = .waiting) (entered_eq : s.entered = 0)
      (reading_eq : s.reading = false) : LoopStep s { s with duty := .leaving }
  | letGo (duty_eq : s.duty = .leaving) : LoopStep s { s with duty := .closing }
  | finish (duty_eq : s.duty = .closing) (fate_eq : s.fate = .stopped) :
      LoopStep s { s with
        drawn := s.drawn ++ [s.player.performance.frame], duty := .finished }
  | fail (duty_eq : s.duty = .closing) (fate_eq : s.fate = .broken) :
      LoopStep s { s with duty := .failed }

/-- What the player can do next. -/
inductive PlayerStep (s : Process) : Process → Prop where
  | look (elapsed time : Nat) (pending : Option Alarm) (next : Player) (fate_eq : s.fate = .playing)
      (armable : ¬ s.Overruns elapsed)
      (looked : Player.Step (s.playerAfter elapsed) (.looked time pending) next) :
      PlayerStep s { s with
        player := next
        changed := s.changed || decide (next.published ≠ s.player.published) }
  /-- The player publishes the screen, and breaks off when it arms the pending alarm. -/
  | overrun (elapsed : Nat) (fate_eq : s.fate = .playing) (looking_eq : s.player.looking = true)
      (overruns : s.Overruns elapsed) :
      PlayerStep s { s with
        player :=
          { s.playerAfter elapsed with
            published := s.player.performance.screen, looking := false }
        changed := s.changed || decide (s.player.performance.screen ≠ s.player.published)
        fate := .broken }
  | receive (request : Request) (next : Player) (fate_eq : s.fate = .playing)
      (received : Player.Step s.player (.received request) next) :
      PlayerStep s { s with player := next }
  | breakOff (request : Request) (rest : List Request) (fault : Performance.Fault)
      (fate_eq : s.fate = .playing) (waiting : s.player.looking = false)
      (queue_eq : s.player.queue = request :: rest)
      (apply_eq : s.player.performance.apply request.operation = .error fault) :
      PlayerStep s { s with fate := .broken }
  | stop (duty_eq : s.duty = .closing) (fate_eq : s.fate = .playing)
      (waiting : s.player.looking = false) (queue_eq : s.player.queue = []) :
      PlayerStep s { s with fate := .stopped }

/-- What can happen next. -/
inductive Step (s t : Process) : Prop where
  | reader (step : ReaderStep s t)
  | loop (step : LoopStep s t)
  | player (step : PlayerStep s t)

end Process

/-! ## Requests to go on -/

/-- Let the reader ask to go on so many times. -/
def advanceTimes (p : Performance) : Nat → Except Performance.Fault Performance
  | 0 => .ok p
  | n + 1 =>
      match p.advance with
      | .ok p => advanceTimes p n
      | .error fault => .error fault

/-- An alarm is pending at some point, while the reader asks to go on so many times. -/
def ComesTo (p : Performance) (count : Nat) (alarm : Alarm) : Prop :=
  ∃ few ≤ count, ∃ q, advanceTimes p few = .ok q ∧ q.pending = some alarm

section Advances

variable {p q : Performance} {few : Nat}

theorem advanceTimes_succ (hadvance : p.advance = .ok q) (count : Nat) :
    advanceTimes p (count + 1) = advanceTimes q count := by
  rw [advanceTimes]
  simp only [hadvance]

theorem advanceTimes_add (hfew : advanceTimes p few = .ok q) (more : Nat) :
    advanceTimes p (few + more) = advanceTimes q more := by
  induction few generalizing p with
  | zero =>
      rw [Nat.zero_add, ← Except.ok.inj hfew]
  | succ few ih =>
      cases hadvance : p.advance with
      | error fault =>
          rw [advanceTimes, hadvance] at hfew
          contradiction
      | ok next =>
          rw [advanceTimes_succ hadvance] at hfew
          rw [Nat.add_right_comm, advanceTimes_succ hadvance]
          exact ih hfew

/-- Behind the end, requests have no effect. -/
theorem advanceTimes_of_ended (hended : p.Ended) (count : Nat) : advanceTimes p count = .ok p := by
  induction count with
  | zero => rfl
  | succ count ih => rw [advanceTimes_succ hended.advance_eq, ih]

theorem exists_advanceTimes (hcoherent : p.Coherent) (hfits : p.setup.tempo.Fits) (count : Nat) :
    ∃ q, advanceTimes p count = .ok q := by
  induction count generalizing p with
  | zero => exact ⟨p, rfl⟩
  | succ count ih =>
      obtain ⟨q, hadvance⟩ := Performance.exists_advance hfits
      have hcourse := hcoherent.course_advance hadvance
      have hsetup : q.setup = p.setup := hcourse.setup_script_edition.1
      rw [advanceTimes_succ hadvance]
      exact ih (hcourse.coherent hcoherent) (hsetup ▸ hfits)

end Advances

namespace Process

variable {s t : Process} {p₀ : Performance} {count done : Nat}

/-! ## The invariant -/

/-- The lines that will be entered yet. -/
def readable (s : Process) : Nat :=
  if s.reading then (s.unread.takeWhile isUtf8).length else 0

/-- The requests that are under way: sent, entered, or still to be read. -/
def ahead (s : Process) : Nat :=
  s.player.queue.length + s.entered + s.readable

/-- Once the player has done what it was sent, nothing else that is under way matters. -/
def IsSettled (s : Process) : Prop :=
  (s.entered = 0 ∧ s.reading = false) ∨ s.player.performance.phase = .ended

/-- What holds of the process while the main loop has a duty. -/
def OnDuty (s : Process) : Duty → Prop
  | .opening => True
  | .drawing screen _ => screen.phase = .ended → s.player.performance.phase = .ended
  | .waiting => True
  | .leaving => s.fate = .broken ∨ s.IsSettled
  | .closing => s.fate = .broken ∨ s.IsSettled
  | .finished => s.IsSettled ∧ s.fate = .stopped ∧
      s.drawn.getLast? = some s.player.performance.frame
  | .failed => s.fate = .broken

/-- What holds of the process while the player has a fate. -/
def OnFate (p₀ : Performance) (count : Nat) (s : Process) : Fate → Prop
  | .playing => True
  | .stopped => s.player.queue = [] ∧ s.player.looking = false ∧
      (s.duty = .closing ∨ s.duty = .finished)
  | .broken => ∃ alarm, ComesTo p₀ count alarm ∧ ¬ alarm.delay.ArmableAt s.clock

/-- The player has gone on so many times, and from the start the clock could wait for all alarms
that it came to.  The last of them need not be armed before the player has looked. -/
structure HasDone (p₀ : Performance) (done : Nat) (s : Process) : Prop where
  advanceTimes_eq : advanceTimes p₀ done = .ok s.player.performance
  earlier_armable : ∀ few < done, ∀ q alarm, advanceTimes p₀ few = .ok q →
    q.pending = some alarm → alarm.delay.ArmableAt s.origin
  armed_armable : ∀ armed, s.player.armed = some armed → armed.alarm.delay.ArmableAt s.origin
  pending_armable : s.player.looking = false → ∀ alarm,
    s.player.performance.pending = some alarm → alarm.delay.ArmableAt s.origin

/-- What holds of the process at all times, if the performance has started as `p₀` and the input has
so many lines. -/
structure Sound (p₀ : Performance) (count : Nat) (s : Process) : Prop where
  broken_or_done : s.fate = .broken ∨ ∃ done, done + s.ahead = count ∧ s.HasDone p₀ done
  coherent : s.player.performance.Coherent
  setup_eq : s.player.performance.setup = p₀.setup
  queue_eq : ∀ request ∈ s.player.queue, request = .advance
  ended_of_published : s.player.published.phase = .ended → s.player.performance.phase = .ended
  onDuty : s.OnDuty s.duty
  onFate : s.OnFate p₀ count s.fate

theorem sound_opening (hcoherent : p₀.Coherent) (origin : Nat) (input : ByteArray) :
    Sound p₀ (lineCount input) (opening p₀ origin input) := by
  refine ⟨.inr ⟨0, ?_, rfl, ?_, ?_, ?_⟩, hcoherent, rfl, ?_, fun hphase => hphase, trivial,
    trivial⟩
  · simp [ahead, readable, opening, Player.opening, lineCount]
  · intro few hfew
    exact absurd hfew (Nat.not_lt_zero few)
  · intro armed harmed
    contradiction
  · intro hlooking
    contradiction
  · intro request hmem
    contradiction

/-- A player that plays has done something. -/
theorem Sound.exists_done (hsound : Sound p₀ count s) (hfate : s.fate = .playing) :
    ∃ done, done + s.ahead = count ∧ s.HasDone p₀ done := by
  rcases hsound.broken_or_done with hbroken | hdone
  · exact absurd (hfate.symm.trans hbroken) (by decide)
  · exact hdone

theorem Sound.ne_finished (hsound : Sound p₀ count s) (hfate : s.fate ≠ .stopped) :
    s.duty ≠ .finished := by
  intro hduty
  have honDuty := hsound.onDuty
  rw [hduty] at honDuty
  exact hfate honDuty.2.1

/-- Before it is let go, the player does not stop. -/
theorem Sound.ne_stopped (hsound : Sound p₀ count s) (hclosing : s.duty ≠ .closing)
    (hfinished : s.duty ≠ .finished) : s.fate ≠ .stopped := by
  intro hfate
  have honFate := hsound.onFate
  rw [hfate] at honFate
  rcases honFate.2.2 with hduty | hduty
  · contradiction
  · contradiction

theorem broken_of_ne (hstopped : s.fate ≠ .stopped) (hplaying : s.fate ≠ .playing) :
    s.fate = .broken := by
  cases hfate : s.fate with
  | playing => contradiction
  | stopped => contradiction
  | broken => rfl

/-- What the player did holds as long as it does nothing else. -/
theorem HasDone.congr (hdone : s.HasDone p₀ done)
    (hperformance : t.player.performance = s.player.performance)
    (horigin : t.origin = s.origin) (harmed : t.player.armed = s.player.armed)
    (hlooking : t.player.looking = s.player.looking) : t.HasDone p₀ done := by
  obtain ⟨hadvances, hearlier, harmable, hpending⟩ := hdone
  refine ⟨?_, ?_, ?_, ?_⟩
  · rw [hperformance]
    exact hadvances
  · rw [horigin]
    exact hearlier
  · rw [horigin, harmed]
    exact harmable
  · rw [horigin, hperformance, hlooking]
    exact hpending

/-- Where the others only hand requests on, the player has done what it had done. -/
theorem Sound.broken_or_done_of_eq (hsound : Sound p₀ count s) (hplayer : t.player = s.player)
    (horigin : t.origin = s.origin) (hfate : t.fate = s.fate) (hahead : t.ahead = s.ahead) :
    t.fate = .broken ∨ ∃ done, done + t.ahead = count ∧ t.HasDone p₀ done := by
  rw [hfate, hahead]
  refine hsound.broken_or_done.imp_right fun ⟨done, hcount, hdone⟩ => ⟨done, hcount, ?_⟩
  exact hdone.congr (by rw [hplayer]) horigin (by rw [hplayer]) (by rw [hplayer])

/-- Before the end, a duty depends on the rest only as far as it is settled or broken off. -/
theorem OnDuty.congr {duty : Duty} (honDuty : s.OnDuty duty) (hfinished : duty ≠ .finished)
    (hbroken : s.fate = .broken → t.fate = .broken)
    (hended : s.player.performance.phase = .ended → t.player.performance.phase = .ended)
    (hclosed : s.entered = 0 ∧ s.reading = false → t.entered = 0 ∧ t.reading = false) :
    t.OnDuty duty := by
  have hsettled : s.IsSettled → t.IsSettled := fun h => h.imp hclosed hended
  cases duty with
  | opening => trivial
  | drawing screen first => exact fun hphase => hended (honDuty hphase)
  | waiting => trivial
  | leaving => exact honDuty.imp hbroken hsettled
  | closing => exact honDuty.imp hbroken hsettled
  | finished => contradiction
  | failed => exact hbroken honDuty

/-- Unless the player has stopped, its fate does not depend on the duties of the main loop. -/
theorem OnFate.congr (honFate : s.OnFate p₀ count s.fate) (hstopped : s.fate ≠ .stopped)
    (hfate : t.fate = s.fate) (hclock : t.clock = s.clock) : t.OnFate p₀ count t.fate := by
  rw [hfate]
  cases hcase : s.fate with
  | playing => trivial
  | stopped => contradiction
  | broken =>
      rw [hcase] at honFate
      show ∃ alarm, ComesTo p₀ count alarm ∧ ¬ alarm.delay.ArmableAt t.clock
      rw [hclock]
      exact honFate

/-! ## What each party does -/

/-- The reader has read on, and no line was lost. -/
theorem Sound.of_reading {unread : List (List UInt8)} {reading : Bool} {entered : Nat}
    (hsound : Sound p₀ count s) (hruns : s.isOver = false) (hreading : s.reading = true)
    (hahead : ({ s with unread, reading, entered } : Process).ahead = s.ahead) :
    Sound p₀ count { s with unread, reading, entered } := by
  have hfinished : s.duty ≠ .finished := by
    intro hfinished
    simp [isOver, hfinished] at hruns
  exact { hsound with
    broken_or_done := hsound.broken_or_done_of_eq rfl rfl rfl hahead
    onDuty := hsound.onDuty.congr hfinished id id fun hclosed =>
      absurd (hreading.symm.trans hclosed.2) (by decide) }

theorem Sound.reader_step (hsound : Sound p₀ count s) (hstep : ReaderStep s t) :
    Sound p₀ count t := by
  cases hstep with
  | read line rest hruns hreading hunread hutf8 =>
      refine hsound.of_reading hruns hreading ?_
      simp only [ahead, readable, hreading, hunread, if_true, List.takeWhile_cons, hutf8,
        List.length_cons]
      omega
  | garbled line rest hruns hreading hunread hutf8 =>
      refine hsound.of_reading hruns hreading ?_
      simp [ahead, readable, hreading, hunread, hutf8]
  | exhausted hruns hreading hunread =>
      refine hsound.of_reading hruns hreading ?_
      simp [ahead, readable, hreading, hunread]

/-- The main loop has turned to another duty, and that is all. -/
theorem Sound.of_duty (hsound : Sound p₀ count s) (hstopped : s.fate ≠ .stopped)
    (hplayer : t.player = s.player) (horigin : t.origin = s.origin) (hfate : t.fate = s.fate)
    (hahead : t.fate = .broken ∨ t.ahead = s.ahead) (honDuty : t.OnDuty t.duty) :
    Sound p₀ count t where
  broken_or_done := by
    rcases hahead with hbroken | hahead
    · exact .inl hbroken
    · exact hsound.broken_or_done_of_eq hplayer horigin hfate hahead
  coherent := hplayer ▸ hsound.coherent
  setup_eq := hplayer ▸ hsound.setup_eq
  queue_eq := hplayer ▸ hsound.queue_eq
  ended_of_published := hplayer ▸ hsound.ended_of_published
  onDuty := honDuty
  onFate := hsound.onFate.congr hstopped hfate (by rw [clock, clock, hplayer, horigin])

theorem Sound.loop_step (hsound : Sound p₀ count s) (hstep : LoopStep s t) :
    Sound p₀ count t := by
  have honDuty := hsound.onDuty
  cases hstep with
  | takeFirst hduty =>
      have hstopped := hsound.ne_stopped (by rw [hduty]; decide) (by rw [hduty]; decide)
      exact hsound.of_duty hstopped rfl rfl rfl (.inr rfl) hsound.ended_of_published
  | draw screen first hduty =>
      have hstopped := hsound.ne_stopped (by rw [hduty]; nofun) (by rw [hduty]; nofun)
      rw [hduty] at honDuty
      refine hsound.of_duty hstopped rfl rfl rfl (.inr rfl) ?_
      show OnDuty _ (dutyBehind screen first)
      unfold dutyBehind
      split
      · exact .inr (.inr (honDuty (And.right ‹_›)))
      · trivial
  | notice hduty hchanged =>
      have hstopped := hsound.ne_stopped (by rw [hduty]; decide) (by rw [hduty]; decide)
      exact hsound.of_duty hstopped rfl rfl rfl (.inr rfl) hsound.ended_of_published
  | forward entered next hduty hentered hfate hsent =>
      cases hsent with
      | send =>
          obtain ⟨done, hcount, hdone⟩ := hsound.exists_done hfate
          have hahead : ({ s with
              entered := entered
              player := { s.player with queue := s.player.queue ++ [.advance] } } : Process).ahead =
                s.ahead := by
            simp only [ahead, readable, hentered, List.length_append, List.length_singleton]
            omega
          refine { hsound with
            broken_or_done := .inr ⟨done, by rw [hahead, hcount], hdone.congr rfl rfl rfl rfl⟩
            queue_eq := ?_
            onDuty := by rw [hduty]; trivial
            onFate := by rw [hfate]; trivial }
          intro request hmem
          rcases List.mem_append.mp hmem with hold | hnew
          · exact hsound.queue_eq request hold
          · exact List.mem_singleton.mp hnew
  | refused entered hduty _ hfate =>
      have hstopped := hsound.ne_stopped (by rw [hduty]; decide) (by rw [hduty]; decide)
      have hbroken := broken_of_ne hstopped hfate
      exact hsound.of_duty hstopped rfl rfl rfl (.inl hbroken) hbroken
  | deserted hduty _ hfate =>
      have hstopped := hsound.ne_stopped (by rw [hduty]; decide) (by rw [hduty]; decide)
      have hbroken := broken_of_ne hstopped hfate
      exact hsound.of_duty hstopped rfl rfl rfl (.inl hbroken) (.inl hbroken)
  | inputEnds hduty hentered hreading =>
      have hstopped := hsound.ne_stopped (by rw [hduty]; decide) (by rw [hduty]; decide)
      exact hsound.of_duty hstopped rfl rfl rfl (.inr rfl) (.inr (.inl ⟨hentered, hreading⟩))
  | letGo hduty =>
      have hstopped := hsound.ne_stopped (by rw [hduty]; decide) (by rw [hduty]; decide)
      rw [hduty] at honDuty
      exact hsound.of_duty hstopped rfl rfl rfl (.inr rfl) honDuty
  | finish hduty hfate =>
      have honFate := hsound.onFate
      rw [hfate] at honFate
      rw [hduty] at honDuty
      rcases honDuty with hbroken | hsettled
      · exact absurd (hfate.symm.trans hbroken) (by decide)
      · refine { hsound with
          broken_or_done := hsound.broken_or_done_of_eq rfl rfl rfl rfl
          onDuty := ⟨hsettled, hfate, List.getLast?_concat⟩
          onFate := ?_ }
        show OnFate _ _ _ s.fate
        rw [hfate]
        exact ⟨honFate.1, honFate.2.1, .inr rfl⟩
  | fail hduty hfate =>
      exact hsound.of_duty (by rw [hfate]; decide) rfl rfl rfl (.inl hfate) hfate

/-- What the player arms when it looks could be armed from the start. -/
theorem HasDone.look {elapsed : Nat} (hdone : s.HasDone p₀ done) (harmable : ¬ s.Overruns elapsed) :
    ({ s with player := (s.playerAfter elapsed).look } : Process).HasDone p₀ done := by
  have hrearmed : ∀ armed, (s.playerAfter elapsed).rearmed = some armed →
      armed.alarm.delay.ArmableAt s.origin := by
    intro armed hsome
    have hpending : (s.playerAfter elapsed).performance.pending = some armed.alarm := by
      rw [← Player.map_alarm_rearmed, hsome, Option.map_some]
    -- Either it was armed before, or it is new, and then the step was possible only because the
    -- clock can still wait for it; all the more it could at the start.
    rcases Player.rearmed_of_pending_eq_some hpending with ⟨same, hsame, -, heq⟩ | ⟨hnew, -⟩
    · obtain rfl : same = armed := Option.some.inj (heq.symm.trans hsome)
      exact hdone.armed_armable same hsame
    · by_contra hlong
      refine harmable ⟨armed.alarm, hpending, ?_, fun hlater => hlong (hlater.mono ?_)⟩
      · intro hmap
        obtain ⟨old, hold, hsame⟩ := Option.map_eq_some_iff.mp hmap
        exact hnew old hold hsame
      · rw [clock, Nat.add_assoc]
        exact Nat.le_add_right _ _
  refine ⟨hdone.advanceTimes_eq, hdone.earlier_armable, hrearmed, ?_⟩
  intro _ alarm hpending
  have hmap : (s.playerAfter elapsed).rearmed.map Armed.alarm = some alarm := by
    rw [Player.map_alarm_rearmed]
    exact hpending
  obtain ⟨armed, harmed, rfl⟩ := Option.map_eq_some_iff.mp hmap
  exact hrearmed armed harmed

/-- A player that has looked may go on once more. -/
theorem HasDone.receive {p : Performance} {rest : List Request} (hdone : s.HasDone p₀ done)
    (hlooking : s.player.looking = false) (hadvance : s.player.performance.advance = .ok p) :
    ({ s with
        player := { s.player with performance := p, queue := rest, looking := true } } :
      Process).HasDone p₀ (done + 1) := by
  refine ⟨?_, ?_, hdone.armed_armable, ?_⟩
  · rw [advanceTimes_add hdone.advanceTimes_eq, advanceTimes_succ hadvance]
    rfl
  · intro few hfew q alarm hfew_eq hpending
    rcases Nat.lt_succ_iff_lt_or_eq.mp hfew with hlt | rfl
    · exact hdone.earlier_armable few hlt q alarm hfew_eq hpending
    · obtain rfl := Except.ok.inj (hdone.advanceTimes_eq.symm.trans hfew_eq)
      exact hdone.pending_armable hlooking alarm hpending
  · intro hlooked
    contradiction

theorem Sound.player_step (hfits : p₀.setup.tempo.Fits) (hsound : Sound p₀ count s)
    (hstep : PlayerStep s t) : Sound p₀ count t := by
  have hfinished (hfate : s.fate = .playing) : s.duty ≠ .finished :=
    hsound.ne_finished (by rw [hfate]; decide)
  have hbroken (hfate : s.fate = .playing) (hbroken : s.fate = .broken) : t.fate = .broken :=
    absurd (hfate.symm.trans hbroken) (by decide)
  cases hstep with
  | look elapsed time pending next hfate harmable hlooked =>
      cases hlooked with
      | look =>
          obtain ⟨done, hcount, hdone⟩ := hsound.exists_done hfate
          refine { hsound with
            broken_or_done := .inr ⟨done, hcount, (hdone.look harmable).congr rfl rfl rfl rfl⟩
            ended_of_published := fun hphase => hphase
            onDuty := hsound.onDuty.congr (hfinished hfate) (hbroken hfate) id id
            onFate := ?_ }
          show OnFate _ _ _ s.fate
          rw [hfate]
          trivial
  | overrun elapsed hfate hlooking hoverruns =>
      -- What is under way is lost from here on; what has been done tells which alarm it was.
      obtain ⟨done, hcount, hdone⟩ := hsound.exists_done hfate
      obtain ⟨alarm, hpending, -, hlong⟩ := hoverruns
      refine { hsound with
        broken_or_done := .inl rfl
        ended_of_published := fun hphase => hphase
        onDuty := hsound.onDuty.congr (hfinished hfate) (fun _ => rfl) id id
        onFate := ⟨alarm, ⟨done, by omega, _, hdone.advanceTimes_eq, hpending⟩, ?_⟩ }
      rw [clock, Nat.add_assoc] at hlong
      exact hlong
  | receive request next hfate hreceived =>
      cases hreceived with
      | receive _ rest p hwaiting hqueue happly =>
          obtain rfl : request = .advance := hsound.queue_eq request (by simp [hqueue])
          obtain ⟨done, hcount, hdone⟩ := hsound.exists_done hfate
          have hcourse := hsound.coherent.course_advance happly
          have hended (hphase : s.player.performance.phase = .ended) : p.phase = .ended := by
            have hstill := (hsound.coherent.ended_of_phase_eq hphase).advance_eq
            rw [← Except.ok.inj (hstill.symm.trans happly)]
            exact hphase
          have hahead : s.ahead = ({ s with
              player := { s.player with
                performance := p, queue := rest, looking := true } } : Process).ahead + 1 := by
            simp only [ahead, readable, hqueue, List.length_cons]
            omega
          have hcount' := (Nat.add_right_comm done 1 _).trans
            ((congrArg (done + ·) hahead.symm).trans hcount)
          refine {
            broken_or_done := .inr ⟨done + 1, hcount', hdone.receive hwaiting happly⟩
            coherent := hcourse.coherent hsound.coherent
            setup_eq := hcourse.setup_script_edition.1.trans hsound.setup_eq
            queue_eq := fun request hmem =>
              hsound.queue_eq request (hqueue ▸ List.mem_cons_of_mem _ hmem)
            ended_of_published := fun hphase => hended (hsound.ended_of_published hphase)
            onDuty := hsound.onDuty.congr (hfinished hfate) (hbroken hfate) hended id
            onFate := ?_ }
          show OnFate _ _ _ s.fate
          rw [hfate]
          trivial
  | breakOff request rest fault hfate hwaiting hqueue happly =>
      -- The player of a process is only asked to go on, and that does not break it off.
      obtain rfl : request = .advance := hsound.queue_eq request (by simp [hqueue])
      obtain ⟨p, hadvance⟩ := Performance.exists_advance (hsound.setup_eq ▸ hfits)
      exact absurd (hadvance.symm.trans happly) nofun
  | stop hduty hfate hwaiting hqueue =>
      obtain ⟨done, hcount, hdone⟩ := hsound.exists_done hfate
      exact { hsound with
        broken_or_done := .inr ⟨done, hcount, hdone.congr rfl rfl rfl rfl⟩
        onDuty := hsound.onDuty.congr (hfinished hfate) (hbroken hfate) id id
        onFate := ⟨hqueue, hwaiting, .inl hduty⟩ }

theorem Sound.step (hfits : p₀.setup.tempo.Fits) (hsound : Sound p₀ count s) (hstep : Step s t) :
    Sound p₀ count t := by
  cases hstep with
  | reader hstep => exact hsound.reader_step hstep
  | loop hstep => exact hsound.loop_step hstep
  | player hstep => exact hsound.player_step hfits hstep

theorem sound_of_reaches {origin : Nat} {input : ByteArray} (hcoherent : p₀.Coherent)
    (hfits : p₀.setup.tempo.Fits)
    (hreaches : Relation.ReflTransGen Step (opening p₀ origin input) s) :
    Sound p₀ (lineCount input) s := by
  induction hreaches with
  | refl => exact sound_opening hcoherent origin input
  | tail _ hstep ih => exact ih.step hfits hstep

end Process

end Terminal

end Typewriter
