import Typewriter.Proofs.Performance.Course

/-!
# Anomalies

A performance has an answer even for states that it should never come to: a line that cannot be cut
behind the visible text, an alarm for a line that is not there, a second end.  It makes the best of
them in silence, so none of them would be noticed.

Here is a watched performance beside it.  It does the same, but in place of each of these answers it
breaks off and names the anomaly (`watches_apply`).  The main statement is `no_anomaly`: from the
start on, and whatever is done, a watched performance and an unwatched one are the same, so the
silent answers are never given.  What carries it are the modes of a performance: each of them says
of the script, the cursor and the visible text what the functions rely on.
-/

namespace Typewriter

namespace Performance

/-- A state of affairs that a performance passes over in silence. -/
inductive Anomaly where
  /-- The line cannot be cut behind as many bytes as the visible text has, or ends there. -/
  | notCut
  /-- Behind the visible text, the line does not go on with its next character. -/
  | otherCharacter
  /-- The last character of a line is typed, and not shown with the line in full. -/
  | lastCharacter
  /-- The reader asks to go on with a line, and there is none at the cursor. -/
  | noLineAtCursor
  /-- An alarm rings for a line, and there is none at its position. -/
  | noLineAtAlarm
  /-- A walk stops for a line, and there is none. -/
  | noLineAtStop
  /-- The script comes to an end that it has come to before. -/
  | endedBefore
deriving DecidableEq, Repr

/-- Why a watched performance breaks off. -/
inductive Break where
  | fault (cause : Fault)
  | anomaly (cause : Anomaly)
deriving DecidableEq, Repr

/-! ## The watched performance -/

/-- Type one more character of a line, under watch. -/
def typeNextWatched (p : Performance) (line : String) (position : Nat) : Except Break Performance :=
  if line.length ≤ p.revealed + 1 then .ok (p.showWhole line)
  else
    match Text.afterBytes? p.shown.utf8ByteSize line.toList with
    | some (c :: _) =>
        if line.toList[p.revealed]? ≠ some c then .error (.anomaly .otherCharacter)
        else if p.revealed + 1 = line.length then .error (.anomaly .lastCharacter)
        else
          match p.setup.tempo.delay? (p.setup.noise p.typed) c false with
          | none => .error (.fault .delayTooLong)
          | some delay => .ok ((p.typeChar c).schedule delay (.typeNext position))
    | _ => .error (.anomaly .notCut)

/-- Begin the line at a position, under watch. -/
def beginLineWatched (p : Performance) (position : Nat) : Except Break Performance :=
  let p := { p with cursor := position, shown := "", revealed := 0 }
  match p.script.lineAt? position with
  | none => .error (.anomaly .noLineAtStop)
  | some line =>
      if p.setup.tempo.isInstant then .ok (p.showWhole line)
      else { p with phase := .typing }.typeNextWatched line position

/-- Come to the end, under watch. -/
def finishWatched (p : Performance) : Except Break Performance :=
  if p.phase = .ended then .error (.anomaly .endedBefore) else .ok p.finish

/-- Walk on from a position, under watch. -/
def walkOnWatched (p : Performance) (position : Nat) : Except Break Performance :=
  let walk := p.walkFrom position
  match walk.stop with
  | .line position => (p.record walk true).beginLineWatched position
  | .pause length next => .ok ((p.record walk false).schedule length (.walkOn next))
  | .ending => (p.record walk true).finishWatched

/-- Start a script, under watch. -/
def startWatched (setup : Setup) (script : Script) : Except Break Performance :=
  ({ setup, script } : Performance).walkOnWatched 0

/-- The reader asks to go on, under watch. -/
def advanceWatched (p : Performance) : Except Break Performance :=
  if p.live then
    match p.phase with
    | .typing =>
        match p.script.lineAt? p.cursor with
        | some line => .ok (p.showWhole line)
        | none => .error (.anomaly .noLineAtCursor)
    | .shown => p.walkOnWatched (p.cursor + 1)
    | .waiting => .ok p
    | .ended => .ok p
  else .ok p

/-- An alarm rings, under watch. -/
def ringWatched (p : Performance) (alarm : Alarm) : Except Break Performance :=
  if alarm.edition = p.edition ∧ p.pending = some alarm then
    match alarm.purpose with
    | .typeNext position =>
        match p.script.lineAt? position with
        | some line => p.cancel.typeNextWatched line position
        | none => .error (.anomaly .noLineAtAlarm)
    | .walkOn position => p.cancel.walkOnWatched position
  else .ok p

/-- Carry out an operation, under watch. -/
def applyWatched (p : Performance) : Operation → Except Break Performance
  | .advance => p.advanceWatched
  | .load script => (p.reload script).walkOnWatched 0
  | .ring alarm => p.ringWatched alarm

/-- Carry out operations one after the other, under watch. -/
def runWatched (p : Performance) : List Operation → Except Break Performance
  | [] => .ok p
  | operation :: rest =>
      match p.applyWatched operation with
      | .error cause => .error cause
      | .ok p => p.runWatched rest

variable {p q : Performance} {line : String} {alarm : Alarm} {position : Nat}

/-! ## Under watch, all is the same but for anomalies -/

/-- The watch breaks off with an anomaly, or else changes nothing. -/
def Watches (watched : Except Break Performance) (plain : Except Fault Performance) : Prop :=
  (∃ cause, watched = .error (.anomaly cause)) ∨ watched = plain.mapError .fault

theorem watches_typeNext (p : Performance) (line : String) (position : Nat) :
    Watches (p.typeNextWatched line position) (p.typeNext line position) := by
  unfold typeNextWatched typeNext
  by_cases hle : line.length ≤ p.revealed + 1
  · rw [if_pos hle, if_pos hle]
    exact .inr rfl
  · rw [if_neg hle, if_neg hle]
    cases Text.afterBytes? p.shown.utf8ByteSize line.toList with
    | none => exact .inl ⟨.notCut, rfl⟩
    | some rest =>
        cases rest with
        | nil => exact .inl ⟨.notCut, rfl⟩
        | cons c rest =>
            by_cases hc : line.toList[p.revealed]? = some c
            · by_cases hlast : p.revealed + 1 = line.length
              · exact .inl ⟨.lastCharacter, by simp [hc, hlast]⟩
              · right
                simp only [hc, hlast, ne_eq, not_true_eq_false, if_false, decide_false]
                cases p.setup.tempo.delay? (p.setup.noise p.typed) c false with
                | none => rfl
                | some delay => rfl
            · exact .inl ⟨.otherCharacter, if_pos hc⟩

theorem watches_beginLine (p : Performance) (position : Nat) :
    Watches (p.beginLineWatched position) (p.beginLine position) := by
  unfold beginLineWatched beginLine
  dsimp only
  cases p.script.lineAt? position with
  | none => exact .inl ⟨.noLineAtStop, rfl⟩
  | some line =>
      dsimp only
      split
      · exact .inr rfl
      · exact watches_typeNext _ line position

theorem watches_walkOn (p : Performance) (position : Nat) :
    Watches (p.walkOnWatched position) (p.walkOn position) := by
  unfold walkOnWatched walkOn
  dsimp only
  cases (p.walkFrom position).stop with
  | line at_ => exact watches_beginLine _ at_
  | pause length next => exact .inr rfl
  | ending =>
      show Watches (finishWatched _) _
      unfold finishWatched
      split
      · exact .inl ⟨.endedBefore, rfl⟩
      · exact .inr rfl

theorem watches_advance (p : Performance) : Watches p.advanceWatched p.advance := by
  unfold advanceWatched advance
  cases p.live with
  | false => exact .inr rfl
  | true =>
      simp only [if_true]
      cases p.phase with
      | typing =>
          cases p.script.lineAt? p.cursor with
          | none => exact .inl ⟨.noLineAtCursor, rfl⟩
          | some line => exact .inr rfl
      | shown => exact watches_walkOn p _
      | waiting => exact .inr rfl
      | ended => exact .inr rfl

theorem watches_ring (p : Performance) (alarm : Alarm) :
    Watches (p.ringWatched alarm) (p.ring alarm) := by
  unfold ringWatched ring
  by_cases hcurrent : alarm.edition = p.edition ∧ p.pending = some alarm
  · rw [if_pos hcurrent, if_pos hcurrent]
    cases alarm.purpose with
    | typeNext at_ =>
        dsimp only
        cases p.script.lineAt? at_ with
        | none => exact .inl ⟨.noLineAtAlarm, rfl⟩
        | some line => exact watches_typeNext _ line at_
    | walkOn next => exact watches_walkOn _ next
  · rw [if_neg hcurrent, if_neg hcurrent]
    exact .inr rfl

theorem watches_apply (p : Performance) (operation : Operation) :
    Watches (p.applyWatched operation) (p.apply operation) := by
  cases operation with
  | advance => exact watches_advance p
  | load script => exact watches_walkOn _ 0
  | ring alarm => exact watches_ring p alarm

/-! ## Anomalies do not occur -/

theorem typeNextWatched_ne (htake : p.shown.toList = line.toList.take p.revealed)
    (position : Nat) (cause : Anomaly) :
    p.typeNextWatched line position ≠ .error (.anomaly cause) := by
  unfold typeNextWatched
  by_cases hle : line.length ≤ p.revealed + 1
  · rw [if_pos hle]
    nofun
  · have hlt : p.revealed < line.toList.length := by
      rw [String.length_toList]
      omega
    have hc := List.getElem?_eq_getElem hlt
    have hlast : p.revealed + 1 ≠ line.length := by omega
    rw [if_neg hle, afterBytes?_of_take htake hc]
    simp only [hc, hlast, ne_eq, not_true_eq_false, if_false]
    cases p.setup.tempo.delay? (p.setup.noise p.typed) line.toList[p.revealed] false with
    | none => nofun
    | some delay => nofun

-- A visible text that is no first piece of its line may end within a character of the line.
example : typeNextWatched { setup := {}, script := [.line "é€!"], shown := "e", revealed := 1 }
    "é€!" 0 = .error (.anomaly .notCut) := rfl

theorem beginLineWatched_ne (hline : p.script.lineAt? position = some line) (cause : Anomaly) :
    p.beginLineWatched position ≠ .error (.anomaly cause) := by
  unfold beginLineWatched
  simp only [hline]
  split
  · nofun
  · exact typeNextWatched_ne rfl position cause

/-- A walk stops for lines of the script only, and it is not taken up behind the end. -/
theorem walkOnWatched_ne (hphase : p.phase ≠ .ended) (position : Nat) (cause : Anomaly) :
    p.walkOnWatched position ≠ .error (.anomaly cause) := by
  have hwithin := p.script.walkFrom_stop_within p.setup.handler p.asked position
  rw [← walkFrom] at hwithin
  unfold walkOnWatched
  cases hstop : (p.walkFrom position).stop with
  | line at_ =>
      rw [hstop] at hwithin
      obtain ⟨-, line, hline⟩ := hwithin
      have hrecord : (p.record (p.walkFrom position) true).script.lineAt? at_ = some line := hline
      simp only [hstop]
      exact beginLineWatched_ne hrecord cause
  | pause length next =>
      simp only [hstop]
      intro heq
      contradiction
  | ending =>
      have hrecord : (p.record (p.walkFrom position) true).phase ≠ .ended := hphase
      simp only [hstop, finishWatched, if_neg hrecord]
      intro heq
      contradiction

theorem Coherent.advanceWatched_ne (hcoherent : p.Coherent) (cause : Anomaly) :
    p.advanceWatched ≠ .error (.anomaly cause) := by
  unfold advanceWatched
  cases hcoherent with
  | typing line alarm htyping =>
      simp only [htyping.live_eq, htyping.phase_eq, htyping.lineAt?_eq, if_true]
      nofun
  | shown line hshown =>
      simp only [hshown.live_eq, hshown.phase_eq, if_true]
      exact walkOnWatched_ne hshown.between.phase_ne_ended _ cause
  | paused position alarm hpaused =>
      simp only [hpaused.live_eq, Bool.false_eq_true, if_false]
      nofun
  | ended hended =>
      simp only [hended.live_eq, hended.phase_eq, if_true]
      nofun

theorem Coherent.ringWatched_ne (hcoherent : p.Coherent) (alarm : Alarm) (cause : Anomaly) :
    p.ringWatched alarm ≠ .error (.anomaly cause) := by
  unfold ringWatched
  by_cases hcurrent : alarm.edition = p.edition ∧ p.pending = some alarm
  · rw [if_pos hcurrent]
    rcases hcoherent.typing_or_paused hcurrent.2 with ⟨line, htyping⟩ | ⟨position, hpaused⟩
    · simp only [htyping.purpose_eq, htyping.lineAt?_eq]
      exact typeNextWatched_ne htyping.typable_cancel.toList_shown _ cause
    · simp only [hpaused.purpose_eq]
      exact walkOnWatched_ne hpaused.between_resumed.phase_ne_ended _ cause
  · rw [if_neg hcurrent]
    nofun

theorem Coherent.applyWatched_ne (hcoherent : p.Coherent) (operation : Operation)
    (cause : Anomaly) : p.applyWatched operation ≠ .error (.anomaly cause) := by
  cases operation with
  | advance => exact hcoherent.advanceWatched_ne cause
  | load script =>
      exact walkOnWatched_ne (p.between_reload script).phase_ne_ended 0 cause
  | ring alarm => exact hcoherent.ringWatched_ne alarm cause

/-- In its modes, a performance is the same with a watch and without one. -/
theorem Coherent.applyWatched_eq (hcoherent : p.Coherent) (operation : Operation) :
    p.applyWatched operation = (p.apply operation).mapError .fault := by
  rcases watches_apply p operation with ⟨cause, hanomaly⟩ | hsame
  · exact absurd hanomaly (hcoherent.applyWatched_ne operation cause)
  · exact hsame

theorem startWatched_eq (setup : Setup) (script : Script) :
    startWatched setup script = (start setup script).mapError .fault := by
  have hphase : ({ setup, script } : Performance).phase ≠ .ended :=
    (between_initial setup script).phase_ne_ended
  rcases watches_walkOn { setup, script } 0 with ⟨cause, hanomaly⟩ | hsame
  · exact absurd hanomaly (walkOnWatched_ne hphase 0 cause)
  · exact hsame

/-! ## Runs -/

/-- No operation leads out of the modes, so a whole run is the same. -/
theorem Coherent.runWatched_eq (hcoherent : p.Coherent) (operations : List Operation) :
    p.runWatched operations = (p.run operations).mapError .fault := by
  induction operations generalizing p with
  | nil => rfl
  | cons operation operations ih =>
      unfold runWatched run
      rw [hcoherent.applyWatched_eq]
      cases happly : p.apply operation with
      | error fault => rfl
      | ok next => exact ih ((hcoherent.course happly).coherent hcoherent)

/-- While a line is being typed, the byte count of the visible text is the place of its next
character. -/
theorem Typing.exists_cut (htyping : p.Typing line alarm) :
    ∃ c rest, Text.afterBytes? p.shown.utf8ByteSize line.toList = some (c :: rest) ∧
      line.toList[p.revealed]? = some c := by
  have hlt : p.revealed < line.toList.length := by
    rw [String.length_toList]
    exact htyping.revealed_lt
  have hc := List.getElem?_eq_getElem hlt
  exact ⟨_, _, afterBytes?_of_take htyping.toList_shown hc, hc⟩

/-- Under watch, a performance only ever breaks off for an anomaly, and otherwise does what it does
without.  From the start on, and whatever is done to it, there is no anomaly: the watched start, the
watched run, and every watched operation behind a run are the same as without a watch.  While a line
is being typed, it can be cut behind the visible text, and the next character follows. -/
theorem no_anomaly :
    (∀ (p : Performance) operation, Watches (p.applyWatched operation) (p.apply operation)) ∧
      ∀ setup script, startWatched setup script = (start setup script).mapError .fault ∧
        ∀ {p₀}, start setup script = .ok p₀ → ∀ operations,
          p₀.runWatched operations = (p₀.run operations).mapError .fault ∧
          ∀ {p}, p₀.run operations = .ok p →
            (∀ operation, p.applyWatched operation = (p.apply operation).mapError .fault) ∧
            (p.live = true → p.phase = .typing → ∃ line c rest,
              p.script.lineAt? p.cursor = some line ∧
              Text.afterBytes? p.shown.utf8ByteSize line.toList = some (c :: rest) ∧
              line.toList[p.revealed]? = some c) := by
  refine ⟨watches_apply, fun setup script => ⟨startWatched_eq setup script, ?_⟩⟩
  intro p₀ hstart operations
  have hcoherent : p₀.Coherent := coherent_of_start hstart
  refine ⟨hcoherent.runWatched_eq operations, ?_⟩
  intro p hrun
  have hreached : p.Coherent := coherent_of_run hcoherent hrun
  refine ⟨hreached.applyWatched_eq, fun hlive hphase => ?_⟩
  obtain ⟨line, alarm, htyping⟩ := hreached.typing_of_phase_eq hlive hphase
  obtain ⟨c, rest, hcut, hc⟩ := htyping.exists_cut
  exact ⟨line, c, rest, htyping.lineAt?_eq, hcut, hc⟩

/-- Two characters of a line are visible, which take five bytes, and the third one follows. -/
theorem no_anomaly_of_five_bytes :
    ∃ p₀ p, start {} [.line "é€!"] = .ok p₀ ∧
      p₀.run [.ring ⟨0, 0, .ofMillis 50, .typeNext 0⟩] = .ok p ∧
      p.live = true ∧ p.phase = .typing ∧ p.shown = "é€" ∧ p.shown.utf8ByteSize = 5 ∧
      p₀.runWatched [.ring ⟨0, 0, .ofMillis 50, .typeNext 0⟩] = .ok p ∧
      p.applyWatched .advance = p.advance.mapError .fault ∧
      ∃ line c rest, p.script.lineAt? p.cursor = some line ∧
        Text.afterBytes? p.shown.utf8ByteSize line.toList = some (c :: rest) ∧
        line.toList[p.revealed]? = some c := by
  have hruns : ∃ p₀ p, start {} [.line "é€!"] = .ok p₀ ∧
      p₀.run [.ring ⟨0, 0, .ofMillis 50, .typeNext 0⟩] = .ok p ∧
      p.live = true ∧ p.phase = .typing ∧ p.shown = "é€" ∧ p.shown.utf8ByteSize = 5 :=
    ⟨_, _, rfl, rfl, rfl, rfl, by decide, by decide⟩
  obtain ⟨p₀, p, hstart, hrun, hlive, hphase, hshown, hbytes⟩ := hruns
  obtain ⟨hwatched, hreached⟩ := (no_anomaly.2 {} [.line "é€!"]).2 hstart _
  rw [hrun] at hwatched
  obtain ⟨hoperation, hcut⟩ := hreached hrun
  exact ⟨p₀, p, hstart, hrun, hlive, hphase, hshown, hbytes, hwatched, hoperation .advance,
    hcut hlive hphase⟩

end Performance

end Typewriter
