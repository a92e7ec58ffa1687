import Typewriter.Performance.Screen
import Typewriter.Proofs.Attempt
import Typewriter.Proofs.Performance.Instant
import Typewriter.Proofs.Performance.Stages

/-!
# Loading starts afresh

A performance in which a script was loaded is run side by side with one that was started on that
script.  `Repeats` says that the first does what the second does: they look the same and wait in
the same way, and what the first has visited and logged since the load is what the second has
visited and logged.  Only the edition tells them apart.  `Alike` lifts such a relation to attempts
that may break off.

Every function of a performance takes performances that repeat one another to attempts that end
alike; none of these lemmas asks how the first performance came about, so a field that `reload`
forgot would break the first of them, `repeats_reload`.

The main statement is `load_starts_afresh`.
-/

namespace Typewriter

/-- The alarm as it is set when there were so many more editions before it. -/
def Alarm.later (editions : Nat) (alarm : Alarm) : Alarm :=
  { alarm with edition := alarm.edition + editions }

namespace Script

variable {script : Script} {handler : Handler} {resolve : Query → Nat}

/-- If the positions that a handler answers do not depend on what it was asked before, neither do
the visits of a walk nor its end; and if the events do not either, the walk is the same. -/
theorem walkFrom_eq_of_asked
    (hresolve : ∀ asked query, (handler asked query).next = resolve query)
    (asked asked' : List Query) (position : Nat) :
    (script.walkFrom handler asked' position).visits =
        (script.walkFrom handler asked position).visits ∧
      (script.walkFrom handler asked' position).stop =
        (script.walkFrom handler asked position).stop ∧
      ((∀ asked asked' query, (handler asked' query).events = (handler asked query).events) →
        (script.walkFrom handler asked' position).events =
          (script.walkFrom handler asked position).events) := by
  -- The motive lets the other questions vary, for a handled line adds one to both lists.
  refine walkFrom_induction handler
    (motive := fun _ position walk => ∀ asked',
      (script.walkFrom handler asked' position).visits = walk.visits ∧
        (script.walkFrom handler asked' position).stop = walk.stop ∧
        ((∀ asked asked' query, (handler asked' query).events = (handler asked query).events) →
          (script.walkFrom handler asked' position).events = walk.events))
    ?behind ?pause ?left ?effect ?handled asked position asked'
  case behind =>
    intro _ position hle asked'
    rw [walkFrom_behind script handler asked' hle]
    exact ⟨rfl, rfl, fun _ => rfl⟩
  case pause =>
    intro _ position length hcue asked'
    rw [walkFrom_pause handler asked' hcue]
    exact ⟨rfl, rfl, fun _ => rfl⟩
  case left =>
    intro asked position text hcue hnext asked'
    rw [hresolve, ← hresolve asked'] at hnext
    rw [walkFrom_line_of_le handler asked' hcue hnext]
    exact ⟨rfl, rfl, fun hevents => hevents _ _ _⟩
  case effect =>
    intro _ position name walk hcue ih asked'
    obtain ⟨hvisits, hstop, hevents⟩ := ih asked'
    rw [walkFrom_effect handler asked' hcue]
    exact ⟨congrArg (_ :: ·) hvisits, hstop, fun h => congrArg (_ ++ ·) (hevents h)⟩
  case handled =>
    intro asked position text walk hcue hnext ih asked'
    rw [hresolve, ← hresolve asked'] at hnext
    rw [walkFrom_line_of_lt handler asked' hcue hnext]
    rw [hresolve, ← hresolve asked'] at ih
    obtain ⟨hvisits, hstop, hevents⟩ := ih (asked' ++ [⟨text, position⟩])
    refine ⟨congrArg (_ :: ·) hvisits, hstop, fun h => ?_⟩
    rw [Walk.events_visiting, Walk.events_visiting, hevents h, h asked asked']

end Script

namespace Performance

/-- Two attempts end alike: both break off for the same reason, or neither does and they lead to
related performances. -/
inductive Alike (related : Performance → Performance → Prop) :
    Except Fault Performance → Except Fault Performance → Prop where
  | broken (fault : Fault) : Alike related (.error fault) (.error fault)
  | done (fresh loaded : Performance) (holds : related fresh loaded) :
      Alike related (.ok fresh) (.ok loaded)

/-- A performance that was loaded over `old` repeats one that was started: it looks the same, waits
in the same way, and has visited and logged the same since then. -/
structure Repeats (old fresh loaded : Performance) : Prop where
  setup_eq : loaded.setup = fresh.setup
  script_eq : loaded.script = fresh.script
  edition_eq : loaded.edition = fresh.edition + (old.edition + 1)
  cursor_eq : loaded.cursor = fresh.cursor
  shown_eq : loaded.shown = fresh.shown
  revealed_eq : loaded.revealed = fresh.revealed
  phase_eq : loaded.phase = fresh.phase
  live_eq : loaded.live = fresh.live
  pending_eq : loaded.pending = fresh.pending.map (Alarm.later (old.edition + 1))
  nextSerial_eq : loaded.nextSerial = fresh.nextSerial
  trail_eq : loaded.trail = old.trail ++ fresh.trail
  /-- The handler may log what it likes, so its events are assumed to follow from the question. -/
  log_eq : (∀ asked asked' query,
      (fresh.setup.handler asked' query).events = (fresh.setup.handler asked query).events) →
    loaded.log = old.log ++ fresh.log

variable {old fresh loaded : Performance} {line : String} {position : Nat} {resolve : Query → Nat}

theorem Alike.mono {related weaker : Performance → Performance → Prop}
    {x y : Except Fault Performance} (halike : Alike related x y)
    (h : ∀ fresh loaded, y = .ok loaded → related fresh loaded → weaker fresh loaded) :
    Alike weaker x y := by
  cases halike with
  | broken fault => exact .broken fault
  | done fresh loaded hholds => exact .done fresh loaded (h fresh loaded rfl hholds)

/-- Attempts that end alike are followed by attempts that end alike. -/
theorem Alike.bind {related further : Performance → Performance → Prop}
    {x y : Except Fault Performance} {f g : Performance → Except Fault Performance}
    (halike : Alike related x y)
    (h : ∀ fresh loaded, x = .ok fresh → related fresh loaded →
      Alike further (f fresh) (g loaded)) :
    Alike further (x >>= f) (y >>= g) := by
  cases halike with
  | broken fault => exact .broken fault
  | done fresh loaded hholds => exact h fresh loaded rfl hholds

theorem repeats_reload (old : Performance) (script : Script) :
    Repeats old { setup := old.setup, script } (old.reload script) where
  setup_eq := rfl
  script_eq := rfl
  edition_eq := (Nat.zero_add _).symm
  cursor_eq := rfl
  shown_eq := rfl
  revealed_eq := rfl
  phase_eq := rfl
  live_eq := rfl
  pending_eq := rfl
  nextSerial_eq := rfl
  trail_eq := (List.append_nil _).symm
  log_eq := fun _ => (List.append_nil _).symm

namespace Repeats

theorem screen_eq (hrepeats : Repeats old fresh loaded) : loaded.screen = fresh.screen := by
  unfold screen
  rw [hrepeats.shown_eq, hrepeats.phase_eq, hrepeats.live_eq, hrepeats.setup_eq]

/-! ## Small changes -/

theorem cancel (hrepeats : Repeats old fresh loaded) : Repeats old fresh.cancel loaded.cancel :=
  { hrepeats with pending_eq := rfl }

theorem showWhole (hrepeats : Repeats old fresh loaded) (line : String) :
    Repeats old (fresh.showWhole line) (loaded.showWhole line) :=
  { hrepeats with shown_eq := rfl, revealed_eq := rfl, phase_eq := rfl, pending_eq := rfl }

theorem typeChar (hrepeats : Repeats old fresh loaded) (c : Char) :
    Repeats old (fresh.typeChar c) (loaded.typeChar c) :=
  { hrepeats with
    shown_eq := congrArg (·.push c) hrepeats.shown_eq
    revealed_eq := congrArg Nat.succ hrepeats.revealed_eq }

theorem schedule (hrepeats : Repeats old fresh loaded) (delay : Duration) (purpose : Purpose) :
    Repeats old (fresh.schedule delay purpose) (loaded.schedule delay purpose) := by
  refine { hrepeats with
    pending_eq := ?_
    nextSerial_eq := congrArg Nat.succ hrepeats.nextSerial_eq }
  simp only [Performance.schedule, Option.map_some, Alarm.later, hrepeats.edition_eq,
    hrepeats.nextSerial_eq]

theorem reload (hrepeats : Repeats old fresh loaded) (script : Script) :
    Repeats old (fresh.reload script) (loaded.reload script) := by
  refine { hrepeats with
    script_eq := rfl, edition_eq := ?_, cursor_eq := rfl, shown_eq := rfl, revealed_eq := rfl,
    phase_eq := rfl, live_eq := rfl, pending_eq := rfl, nextSerial_eq := rfl }
  show loaded.edition + 1 = fresh.edition + 1 + (old.edition + 1)
  rw [hrepeats.edition_eq]
  omega

theorem finish (hrepeats : Repeats old fresh loaded) : Repeats old fresh.finish loaded.finish := by
  have hlength : loaded.script.length = fresh.script.length :=
    congrArg List.length hrepeats.script_eq
  by_cases hphase : fresh.phase = .ended
  · have hphase' : loaded.phase = .ended := hrepeats.phase_eq.trans hphase
    rw [Performance.finish, Performance.finish, if_pos hphase, if_pos hphase']
    exact hrepeats
  · have hphase' : loaded.phase ≠ .ended := by rw [hrepeats.phase_eq]; exact hphase
    cases hend : fresh.setup.announcesEnd with
    | true =>
        have hend' : loaded.setup.announcesEnd = true := by rw [hrepeats.setup_eq]; exact hend
        rw [finish_of_announcesEnd hphase hend, finish_of_announcesEnd hphase' hend']
        refine { hrepeats with
          cursor_eq := hlength, phase_eq := rfl, pending_eq := rfl, log_eq := ?_ }
        intro hevents
        show loaded.log ++ [.complete] = old.log ++ (fresh.log ++ [.complete])
        rw [hrepeats.log_eq hevents, List.append_assoc]
    | false =>
        have hend' : loaded.setup.announcesEnd = false := by rw [hrepeats.setup_eq]; exact hend
        rw [finish_of_not_announcesEnd hphase hend, finish_of_not_announcesEnd hphase' hend']
        exact { hrepeats with
          cursor_eq := hlength, shown_eq := rfl, revealed_eq := rfl, phase_eq := rfl
          pending_eq := rfl }

/-- Walks that differ in nothing but earlier questions are put down alike. -/
theorem record (hrepeats : Repeats old fresh loaded)
    (hresolve : ∀ asked query, (fresh.setup.handler asked query).next = resolve query)
    (position : Nat) (live : Bool) :
    Repeats old (fresh.record (fresh.walkFrom position) live)
      (loaded.record (loaded.walkFrom position) live) := by
  obtain ⟨hvisits, -, hevents⟩ :=
    fresh.script.walkFrom_eq_of_asked hresolve fresh.asked loaded.asked position
  refine { hrepeats with live_eq := rfl, trail_eq := ?_, log_eq := ?_ }
  · show loaded.trail ++ (loaded.walkFrom position).visits =
      old.trail ++ (fresh.trail ++ (fresh.walkFrom position).visits)
    rw [hrepeats.trail_eq, List.append_assoc, walkFrom, hrepeats.script_eq, hrepeats.setup_eq,
      hvisits, walkFrom]
  · intro h
    show loaded.log ++ (loaded.walkFrom position).events =
      old.log ++ (fresh.log ++ (fresh.walkFrom position).events)
    rw [hrepeats.log_eq h, List.append_assoc, walkFrom, hrepeats.script_eq, hrepeats.setup_eq,
      hevents h, walkFrom]

/-! ## What can break off -/

theorem typeNext (hrepeats : Repeats old fresh loaded)
    (hjitter : fresh.setup.tempo.jitter.nanos < nanosPerMilli) (line : String) (position : Nat) :
    Alike (Repeats old) (fresh.typeNext line position) (loaded.typeNext line position) := by
  unfold Performance.typeNext
  rw [hrepeats.revealed_eq, hrepeats.shown_eq]
  by_cases hle : line.length ≤ fresh.revealed + 1
  · rw [if_pos hle, if_pos hle]
    exact .done _ _ (hrepeats.showWhole line)
  · rw [if_neg hle, if_neg hle]
    have hlast : fresh.revealed + 1 ≠ line.length := by omega
    cases Text.afterBytes? fresh.shown.utf8ByteSize line.toList with
    | none => exact .done _ _ (hrepeats.showWhole line)
    | some rest =>
        cases rest with
        | nil => exact .done _ _ (hrepeats.showWhole line)
        | cons c rest =>
            -- The draws may differ, but with so little jitter nothing is made of them.
            simp only [hlast, decide_false, hrepeats.setup_eq, Tempo.delay?_of_jitter_lt hjitter]
            cases fresh.setup.tempo.interval.add? (fresh.setup.tempo.rests.after c) with
            | none => exact .broken _
            | some delay => exact .done _ _ ((hrepeats.typeChar c).schedule delay _)

theorem beginLine (hrepeats : Repeats old fresh loaded)
    (hjitter : fresh.setup.tempo.jitter.nanos < nanosPerMilli) (position : Nat) :
    Alike (Repeats old) (fresh.beginLine position) (loaded.beginLine position) := by
  have hcleared : Repeats old { fresh with cursor := position, shown := "", revealed := 0 }
      { loaded with cursor := position, shown := "", revealed := 0 } :=
    { hrepeats with cursor_eq := rfl, shown_eq := rfl, revealed_eq := rfl }
  have hline : loaded.script.lineAt? position = fresh.script.lineAt? position := by
    rw [hrepeats.script_eq]
  have hinstant : loaded.setup.tempo.isInstant = fresh.setup.tempo.isInstant := by
    rw [hrepeats.setup_eq]
  unfold Performance.beginLine
  simp only [hline, hinstant]
  cases fresh.script.lineAt? position with
  | none => exact .done _ _ hcleared
  | some line =>
      cases fresh.setup.tempo.isInstant with
      | true => exact .done _ _ (hcleared.showWhole line)
      | false =>
          have htyping : Repeats old
              { fresh with cursor := position, shown := "", revealed := 0, phase := .typing }
              { loaded with cursor := position, shown := "", revealed := 0, phase := .typing } :=
            { hcleared with phase_eq := rfl }
          exact htyping.typeNext hjitter line position

theorem walkOn (hrepeats : Repeats old fresh loaded)
    (hjitter : fresh.setup.tempo.jitter.nanos < nanosPerMilli)
    (hresolve : ∀ asked query, (fresh.setup.handler asked query).next = resolve query)
    (position : Nat) : Alike (Repeats old) (fresh.walkOn position) (loaded.walkOn position) := by
  have hrecord := hrepeats.record hresolve position
  have hstop : (loaded.walkFrom position).stop = (fresh.walkFrom position).stop := by
    obtain ⟨-, hstop, -⟩ :=
      fresh.script.walkFrom_eq_of_asked hresolve fresh.asked loaded.asked position
    rw [walkFrom, hrepeats.script_eq, hrepeats.setup_eq, hstop, walkFrom]
  cases hfresh : (fresh.walkFrom position).stop with
  | line at_ =>
      rw [walkOn_of_stop_line hfresh, walkOn_of_stop_line (hstop.trans hfresh)]
      exact (hrecord true).beginLine hjitter at_
  | pause length next =>
      rw [walkOn_of_stop_pause hfresh, walkOn_of_stop_pause (hstop.trans hfresh)]
      exact .done _ _ ((hrecord false).schedule length _)
  | ending =>
      rw [walkOn_of_stop_ending hfresh, walkOn_of_stop_ending (hstop.trans hfresh)]
      exact .done _ _ (hrecord true).finish

/-! ## Signals -/

theorem advance (hrepeats : Repeats old fresh loaded)
    (hjitter : fresh.setup.tempo.jitter.nanos < nanosPerMilli)
    (hresolve : ∀ asked query, (fresh.setup.handler asked query).next = resolve query) :
    Alike (Repeats old) fresh.advance loaded.advance := by
  unfold Performance.advance
  rw [hrepeats.live_eq, hrepeats.phase_eq, hrepeats.script_eq, hrepeats.cursor_eq]
  cases fresh.live with
  | false => exact .done _ _ hrepeats
  | true =>
      cases fresh.phase with
      | typing =>
          cases fresh.script.lineAt? fresh.cursor with
          | none => exact .done _ _ hrepeats
          | some line => exact .done _ _ (hrepeats.showWhole line)
      | waiting => exact .done _ _ hrepeats
      | shown => exact hrepeats.walkOn hjitter hresolve _
      | ended => exact .done _ _ hrepeats

theorem ring (hrepeats : Repeats old fresh loaded)
    (hjitter : fresh.setup.tempo.jitter.nanos < nanosPerMilli)
    (hresolve : ∀ asked query, (fresh.setup.handler asked query).next = resolve query)
    {alarm : Alarm} (hpending : fresh.pending = some alarm) :
    Alike (Repeats old) (fresh.ring alarm) (loaded.ring (alarm.later (old.edition + 1))) := by
  have hpending' : loaded.pending = some (alarm.later (old.edition + 1)) := by
    rw [hrepeats.pending_eq, hpending, Option.map_some]
  by_cases hedition : alarm.edition = fresh.edition
  · have hedition' : (alarm.later (old.edition + 1)).edition = loaded.edition := by
      rw [hrepeats.edition_eq, ← hedition]
      rfl
    have hpurpose : (alarm.later (old.edition + 1)).purpose = alarm.purpose := rfl
    unfold Performance.ring
    rw [if_pos ⟨hedition, hpending⟩, if_pos ⟨hedition', hpending'⟩, hrepeats.script_eq, hpurpose]
    cases alarm.purpose with
    | typeNext position =>
        dsimp only
        cases fresh.script.lineAt? position with
        | none => exact .done _ _ hrepeats.cancel
        | some line => exact hrepeats.cancel.typeNext hjitter line position
    | walkOn position => exact hrepeats.cancel.walkOn hjitter hresolve position
  · -- An alarm of another edition rings in neither.
    have hedition' : (alarm.later (old.edition + 1)).edition ≠ loaded.edition := by
      rw [hrepeats.edition_eq]
      exact fun heq => hedition (Nat.add_right_cancel heq)
    unfold Performance.ring
    rw [if_neg fun h => hedition h.1, if_neg fun h => hedition' h.1]
    exact .done _ _ hrepeats

theorem perform (hrepeats : Repeats old fresh loaded)
    (hjitter : fresh.setup.tempo.jitter.nanos < nanosPerMilli)
    (hresolve : ∀ asked query, (fresh.setup.handler asked query).next = resolve query)
    (signal : Signal) : Alike (Repeats old) (fresh.perform signal) (loaded.perform signal) := by
  cases signal with
  | advance => exact hrepeats.advance hjitter hresolve
  | load script => exact (hrepeats.reload script).walkOn hjitter hresolve 0
  | ringPending =>
      unfold Performance.perform ringPending
      cases hpending : fresh.pending with
      | none =>
          simp only [hrepeats.pending_eq, hpending, Option.map_none]
          exact .done _ _ hrepeats
      | some alarm =>
          simp only [hrepeats.pending_eq, hpending, Option.map_some]
          exact hrepeats.ring hjitter hresolve hpending

end Repeats

/-- No signal changes the setup. -/
theorem setup_eq_of_perform {p q : Performance} {signal : Signal} (hcoherent : p.Coherent)
    (hperform : p.perform signal = .ok q) : q.setup = p.setup := by
  rcases eq_or_apply_of_perform hperform with rfl | ⟨operation, happly⟩
  · rfl
  · exact (hcoherent.course happly).setup_script_edition.1

theorem performAll_cons (p : Performance) (signal : Signal) (rest : List Signal) :
    p.performAll (signal :: rest) = p.perform signal >>= fun next => next.performAll rest := by
  rw [performAll]
  cases p.perform signal with
  | error fault => rfl
  | ok next => rfl

theorem Repeats.performAll (hrepeats : Repeats old fresh loaded) (hcoherent : fresh.Coherent)
    (hjitter : fresh.setup.tempo.jitter.nanos < nanosPerMilli)
    (hresolve : ∀ asked query, (fresh.setup.handler asked query).next = resolve query)
    (signals : List Signal) :
    Alike (Repeats old) (fresh.performAll signals) (loaded.performAll signals) := by
  induction signals generalizing fresh loaded with
  | nil => exact .done _ _ hrepeats
  | cons signal rest ih =>
      rw [performAll_cons, performAll_cons]
      refine (hrepeats.perform hjitter hresolve signal).bind ?_
      intro next next' hnext hrepeats'
      have hsetup : next.setup = fresh.setup := setup_eq_of_perform hcoherent hnext
      rw [← hsetup] at hjitter hresolve
      exact ih hrepeats' (coherent_of_perform hcoherent hnext) hjitter hresolve

theorem coherent_of_performAll {p q : Performance} {signals : List Signal}
    (hcoherent : p.Coherent) (hrun : p.performAll signals = .ok q) : q.Coherent := by
  induction signals generalizing p with
  | nil =>
      rw [← Except.ok.inj hrun]
      exact hcoherent
  | cons signal rest ih =>
      rw [performAll_cons] at hrun
      obtain ⟨next, hperform, hrest⟩ := bind_eq_ok hrun
      exact ih (coherent_of_perform hcoherent hperform) hrest

/-! ## Alarms from before the load -/

theorem Coherent.edition_eq_of_pending {p : Performance} {alarm : Alarm} (hcoherent : p.Coherent)
    (hpending : p.pending = some alarm) : alarm.edition = p.edition := by
  rcases hcoherent.typing_or_paused hpending with ⟨_, htyping⟩ | ⟨_, hpaused⟩
  · exact htyping.edition_eq
  · exact hpaused.edition_eq

theorem coherent_of_mem_stages {p₀ p : Performance} {operations : List Operation}
    (hcoherent : p₀.Coherent) (hrun : p₀.run operations = .ok p) :
    ∀ stage ∈ p₀.stages operations, stage.Coherent := by
  refine run_induction
    (motive := fun operations _ => ∀ stage ∈ p₀.stages operations, stage.Coherent)
    hcoherent ?nil ?concat hrun
  case nil =>
    intro stage hstage
    rw [stages, List.mem_singleton] at hstage
    rw [hstage]
    exact hcoherent
  case concat =>
    intro operations operation r q hrest happly hr hcourse ih stage hstage
    rw [stages_concat hrest happly, List.mem_append, List.mem_singleton] at hstage
    rcases hstage with hstage | rfl
    · exact ih stage hstage
    · exact hcourse.coherent hr

/-- An alarm that was pending at any time before the load is of an earlier edition than everything
behind it. -/
theorem Repeats.not_pending_of_mem_stages {p₀ : Performance} {operations : List Operation}
    (hcoherent : p₀.Coherent) (hrun : p₀.run operations = .ok old) (hloaded : loaded.Coherent)
    (hrepeats : Repeats old fresh loaded) :
    ∀ stage ∈ p₀.stages operations, ∀ alarm, stage.pending = some alarm →
      loaded.pending ≠ some alarm := by
  intro stage hstage alarm hpending hpending'
  have hstage' : alarm.edition = stage.edition :=
    (coherent_of_mem_stages hcoherent hrun stage hstage).edition_eq_of_pending hpending
  have hle : stage.edition ≤ old.edition := stages_edition_le hcoherent hrun stage hstage
  have hloaded' : alarm.edition = loaded.edition := hloaded.edition_eq_of_pending hpending'
  rw [hrepeats.edition_eq] at hloaded'
  omega

/-- Whatever was done to a performance, loading a script starts it afresh: any further signals end
alike on it and on a performance that was started on that script, and as this holds for all lists
of signals, if the two break off they do so at the same one.  In between they look the same and
wait in the same way, and have visited and logged the same since the load; all that is left of the
past is the edition.  No alarm from before the load is ever pending again, nor does it do anything
when it rings. -/
theorem load_starts_afresh {setup : Setup} {script : Script} {resolve : Query → Nat}
    {p₀ p : Performance} {operations : List Operation}
    (hjitter : setup.tempo.jitter.nanos < nanosPerMilli)
    (hresolve : ∀ asked query, (setup.handler asked query).next = resolve query)
    (hstart : start setup script = .ok p₀) (hrun : p₀.run operations = .ok p)
    (other : Script) (signals : List Signal) :
    Alike
      (fun fresh loaded => Repeats p fresh loaded ∧ loaded.screen = fresh.screen ∧
        ∀ stage ∈ p₀.stages operations, ∀ alarm, stage.pending = some alarm →
          loaded.pending ≠ some alarm ∧ loaded.ring alarm = .ok loaded)
      (do (← start setup other).performAll signals) (p.performAll (.load other :: signals)) := by
  have hcoherent : p₀.Coherent := coherent_of_start hstart
  obtain ⟨hsetup, -⟩ := setup_script_edition_of_run hstart hrun
  have hreload : Repeats p { setup, script := other } (p.reload other) :=
    hsetup ▸ repeats_reload p other
  have hperformed : Alike (Repeats p) (do (← start setup other).performAll signals)
      (p.performAll (.load other :: signals)) := by
    rw [performAll_cons]
    refine (hreload.walkOn hjitter hresolve 0).bind ?_
    intro fresh loaded hfresh hrepeats
    have hsetup_fresh : fresh.setup = setup := (arrival_of_start hfresh).record_eq.1
    rw [← hsetup_fresh] at hjitter hresolve
    exact hrepeats.performAll (coherent_of_start hfresh) hjitter hresolve signals
  refine hperformed.mono ?_
  intro fresh loaded hloaded hrepeats
  have hcoherent' : loaded.Coherent :=
    coherent_of_performAll (coherent_of_run hcoherent hrun) hloaded
  have hnever := hrepeats.not_pending_of_mem_stages hcoherent hrun hcoherent'
  refine ⟨hrepeats, hrepeats.screen_eq, fun stage hstage alarm hpending => ?_⟩
  exact ⟨hnever stage hstage alarm hpending, ring_of_ne (hnever stage hstage alarm hpending)⟩

/-- A script is loaded during a pause behind a line, and taken through its first line into the
second.  The alarm of the pause rings too late. -/
theorem load_starts_afresh_of_pause :
    ∃ p₀ p fresh loaded, start {} [.line "a", .pause (.ofMillis 5), .line "b"] = .ok p₀ ∧
      p₀.run [.advance] = .ok p ∧ p.pending = some ⟨0, 0, .ofMillis 5, .walkOn 2⟩ ∧
      (do (← start {} [.line "Hi", .line "you"]).performAll [.ringPending, .advance]) = .ok fresh ∧
      p.performAll [.load [.line "Hi", .line "you"], .ringPending, .advance] = .ok loaded ∧
      loaded.shown = "y" ∧ Repeats p fresh loaded ∧ loaded.screen = fresh.screen ∧
      loaded.ring ⟨0, 0, .ofMillis 5, .walkOn 2⟩ = .ok loaded := by
  have hjitter : ({} : Setup).tempo.jitter.nanos < nanosPerMilli := by decide
  have hresolve : ∀ asked query, (({} : Setup).handler asked query).next =
      (({} : Setup).handler [] query).next := fun _ _ => rfl
  have hruns : ∃ p₀ p fresh loaded,
      start {} [.line "a", .pause (.ofMillis 5), .line "b"] = .ok p₀ ∧
      p₀.run [.advance] = .ok p ∧ p₀.stages [.advance] = [p₀, p] ∧
      p.pending = some ⟨0, 0, .ofMillis 5, .walkOn 2⟩ ∧
      (do (← start {} [.line "Hi", .line "you"]).performAll [.ringPending, .advance]) = .ok fresh ∧
      p.performAll [.load [.line "Hi", .line "you"], .ringPending, .advance] = .ok loaded ∧
      loaded.shown = "y" :=
    ⟨_, _, _, _, rfl, rfl, rfl, rfl, rfl, rfl, by decide⟩
  obtain ⟨p₀, p, fresh, loaded, hstart, hrun, hstages, hpending, hfresh, hloaded, hshown⟩ := hruns
  have halike := load_starts_afresh hjitter hresolve hstart hrun [.line "Hi", .line "you"]
    [.ringPending, .advance]
  rw [hfresh, hloaded] at halike
  cases halike with
  | done _ _ hholds =>
      obtain ⟨hrepeats, hscreen, hstale⟩ := hholds
      have hmem : p ∈ p₀.stages [.advance] := by simp [hstages]
      exact ⟨p₀, p, fresh, loaded, hstart, hrun, hpending, hfresh, hloaded, hshown, hrepeats,
        hscreen, (hstale p hmem _ hpending).2⟩

end Performance

end Typewriter
