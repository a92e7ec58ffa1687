import Typewriter.Proofs.Command.Calls
import Typewriter.Proofs.Options.Delays
import Typewriter.Proofs.Walk

/-!
# Spoken lines

Behind the usual handler without commands of its own, a line is either a call of the alert or
spoken.  `Script.exists_passes` says that a walk goes past calls only, raises the alert of each,
and stops at the next spoken line if nothing stops it before.

`Setup.Plain` collects what holds of every setup that the program can ask for.
-/

namespace Typewriter

/-- Whether a line is typed rather than called. -/
def isSpoken (delimiter : Option String) (text : String) : Bool :=
  (alertCall? delimiter text).isNone

/-- The messages of the lines that call the alert. -/
def alertCalls (delimiter : Option String) (texts : List String) : List String :=
  texts.filterMap (alertCall? delimiter)

/-- The lines that are typed. -/
def spokenLines (delimiter : Option String) (texts : List String) : List String :=
  texts.filter (isSpoken delimiter)

section Lines

variable {delimiter : Option String} {text line : String} {before after calls : List String}

theorem isSpoken_iff : isSpoken delimiter text = true ↔ alertCall? delimiter text = none :=
  Option.isNone_iff_eq_none

theorem spokenLines_append (delimiter : Option String) (before after : List String) :
    spokenLines delimiter (before ++ after) =
      spokenLines delimiter before ++ spokenLines delimiter after :=
  List.filter_append ..

theorem alertCalls_append (delimiter : Option String) (before after : List String) :
    alertCalls delimiter (before ++ after) =
      alertCalls delimiter before ++ alertCalls delimiter after :=
  List.filterMap_append ..

theorem spokenLines_cons (hline : isSpoken delimiter line = true) (after : List String) :
    spokenLines delimiter (line :: after) = line :: spokenLines delimiter after :=
  List.filter_cons_of_pos hline

theorem alertCalls_singleton (hline : isSpoken delimiter line = true) :
    alertCalls delimiter [line] = [] :=
  List.filterMap_cons_none (isSpoken_iff.mp hline)

theorem length_spokenLines_lt (hline : isSpoken delimiter line = true)
    (before after : List String) :
    (spokenLines delimiter before).length <
      (spokenLines delimiter (before ++ line :: after)).length := by
  rw [spokenLines_append, spokenLines_cons hline, List.length_append, List.length_cons]
  omega

/-- A spoken line with so many spoken lines before it stands at one place only. -/
theorem eq_of_length_spokenLines_eq {line' : String} {before' after' : List String}
    (hline : isSpoken delimiter line = true) (hline' : isSpoken delimiter line' = true)
    (htexts : before ++ line :: after = before' ++ line' :: after')
    (hlength : (spokenLines delimiter before).length = (spokenLines delimiter before').length) :
    before = before' ∧ line = line' := by
  -- If one piece were longer than the other, the line behind the shorter would be in it.
  rcases List.append_eq_append_iff.mp htexts with ⟨more, rfl, hrest⟩ | ⟨more, rfl, hrest⟩
  · cases more with
    | nil => exact ⟨(List.append_nil before).symm, (List.cons.inj hrest).1⟩
    | cons first others =>
        obtain ⟨rfl, -⟩ := List.cons.inj hrest
        exact absurd hlength (Nat.ne_of_lt (length_spokenLines_lt hline before others))
  · cases more with
    | nil => exact ⟨List.append_nil before', (List.cons.inj hrest).1.symm⟩
    | cons first others =>
        obtain ⟨rfl, -⟩ := List.cons.inj hrest
        exact absurd hlength (Nat.ne_of_gt (length_spokenLines_lt hline' before' others))

end Lines

/-- The texts of the lines from a position on. -/
def Script.textsFrom (script : Script) (position : Nat) : List String :=
  (script.drop position).filterMap Cue.text?

theorem Script.textsFrom_of_length_le {script : Script} {position : Nat}
    (hlength : script.length ≤ position) : script.textsFrom position = [] := by
  rw [textsFrom, List.drop_eq_nil_of_le hlength]
  rfl

theorem Script.textsFrom_eq {script : Script} {position : Nat} {cue : Cue}
    (hcue : script[position]? = some cue) :
    script.textsFrom position = cue.text?.toList ++ script.textsFrom (position + 1) := by
  rw [textsFrom, textsFrom, drop_eq_cons hcue]
  cases htext : cue.text? with
  | none => simp [htext]
  | some text => simp [htext]

/-! ## Walks -/

/-- What the program asks of every setup, whatever its arguments: the usual handler, alerts that are
heard, an end that is not announced, and delays that fit into a duration. -/
structure Setup.Plain (setup : Setup) : Prop where
  customHandler_eq : setup.customHandler = none
  hearsAlerts_eq : setup.hearsAlerts = true
  announcesEnd_eq : setup.announcesEnd = false
  fits : setup.tempo.Fits

/-- A setup with other draws. -/
def Setup.withNoise (setup : Setup) (noise : Nat → Nat) : Setup :=
  { setup with noise := noise }

theorem Options.plain_of_areRead {options : Options} (hrests : AreRead options.rests)
    (noise : Nat → Nat) : (options.setup.withNoise noise).Plain :=
  ⟨rfl, rfl, rfl, fits_of_areRead hrests⟩

theorem Setup.Plain.handler_eq {setup : Setup} (hplain : setup.Plain) (asked : List Query)
    (query : Query) : setup.handler asked query = (setup.book []).reply query := by
  unfold handler
  rw [hplain.customHandler_eq]
  rfl

theorem Setup.Plain.handler_of_some {setup : Setup} {text message : String} (hplain : setup.Plain)
    (hcall : alertCall? setup.delimiter text = some message) (asked : List Query)
    (position : Nat) :
    setup.handler asked ⟨text, position⟩ =
      ⟨CommandBook.advancePosition position 1, [.alert message]⟩ := by
  have hbook : alertCall? (setup.book []).delimiter text = some message := hcall
  rw [hplain.handler_eq, CommandBook.reply_of_alertCall?_eq_some rfl hbook, book,
    hplain.hearsAlerts_eq]
  rfl

theorem Setup.Plain.handler_of_none {setup : Setup} {text : String} (hplain : setup.Plain)
    (hcall : alertCall? setup.delimiter text = none) (asked : List Query) (position : Nat) :
    setup.handler asked ⟨text, position⟩ = .pass ⟨text, position⟩ := by
  have hbook : alertCall? (setup.book []).delimiter text = none := hcall
  rw [hplain.handler_eq, CommandBook.reply_of_alertCall?_eq_none rfl hbook]

/-- The position behind a cue of a script that is not too long for positions. -/
theorem CommandBook.advancePosition_one {script : Script} {position : Nat} {cue : Cue}
    (hlength : script.length ≤ maxPosition) (hcue : script[position]? = some cue) :
    advancePosition position 1 = position + 1 := by
  obtain ⟨hlt, -⟩ := List.getElem?_eq_some_iff.mp hcue
  exact Nat.min_eq_left (Nat.le_trans hlt hlength)

/-- The messages of the alerts among some events. -/
def Event.alerts (events : List Event) : List String :=
  events.filterMap alert?

theorem Event.alerts_append (events later : List Event) :
    alerts (events ++ later) = alerts events ++ alerts later :=
  List.filterMap_append ..

/-- Up to a stop stand calls of the alert, and at the stop a spoken line or none. -/
def Stop.Passes (script : Script) (delimiter : Option String) (position : Nat)
    (calls : List String) : Stop → Prop
  | .line at_ =>
      ∃ line, script.lineAt? at_ = some line ∧ isSpoken delimiter line = true ∧
        script.textsFrom position = calls ++ line :: script.textsFrom (at_ + 1)
  | .pause _ next => script.textsFrom position = calls ++ script.textsFrom next
  | .ending => script.textsFrom position = calls

theorem Stop.Passes.prepend {script : Script} {delimiter : Option String} {position : Nat}
    {calls : List String} {stop : Stop}
    (hpasses : stop.Passes script delimiter (position + 1) calls) (more : List String)
    (htexts : script.textsFrom position = more ++ script.textsFrom (position + 1)) :
    stop.Passes script delimiter position (more ++ calls) := by
  cases stop with
  | line at_ =>
      obtain ⟨line, hline, hspoken, heq⟩ := hpasses
      exact ⟨line, hline, hspoken, by rw [htexts, heq, List.append_assoc]⟩
  | pause length next =>
      show script.textsFrom position = _
      rw [htexts, show script.textsFrom (position + 1) = _ from hpasses, List.append_assoc]
  | ending =>
      show script.textsFrom position = _
      rw [htexts, show script.textsFrom (position + 1) = _ from hpasses]

/-- A walk goes past calls of the alert only, and raises their alerts. -/
theorem Script.exists_passes {script : Script} {setup : Setup} (hplain : setup.Plain)
    (hlength : script.length ≤ maxPosition) (asked : List Query) (position : Nat) :
    ∃ calls, spokenLines setup.delimiter calls = [] ∧
      Event.alerts (script.walkFrom setup.handler asked position).events =
        alertCalls setup.delimiter calls ∧
      (script.walkFrom setup.handler asked position).stop.Passes script setup.delimiter position
        calls := by
  refine Script.walkFrom_induction setup.handler
    (motive := fun _ position walk => ∃ calls, spokenLines setup.delimiter calls = [] ∧
      Event.alerts walk.events = alertCalls setup.delimiter calls ∧
      walk.stop.Passes script setup.delimiter position calls)
    ?behind ?pause ?left ?effect ?handled asked position
  case behind =>
    intro _ position hbehind
    exact ⟨[], rfl, rfl, textsFrom_of_length_le hbehind⟩
  case pause =>
    intro _ position length hcue
    exact ⟨[], rfl, rfl, textsFrom_eq hcue⟩
  case left =>
    intro asked position text hcue hnext
    cases hcall : alertCall? setup.delimiter text with
    | none =>
        rw [hplain.handler_of_none hcall]
        exact ⟨[], rfl, rfl, text, lineAt?_eq_some_iff.mpr hcue, isSpoken_iff.mpr hcall,
          textsFrom_eq hcue⟩
    | some message =>
        rw [hplain.handler_of_some hcall] at hnext
        simp only [CommandBook.advancePosition_one hlength hcue] at hnext
        exact absurd hnext (Nat.not_succ_le_self position)
  case effect =>
    rintro _ position name walk hcue ⟨calls, hspoken, halerts, hpasses⟩
    exact ⟨calls, hspoken, halerts, hpasses.prepend [] (textsFrom_eq hcue)⟩
  case handled =>
    intro asked position text walk hcue hnext ih
    cases hcall : alertCall? setup.delimiter text with
    | none =>
        rw [hplain.handler_of_none hcall] at hnext
        exact absurd hnext (Nat.lt_irrefl position)
    | some message =>
        rw [hplain.handler_of_some hcall] at ih ⊢
        simp only [CommandBook.advancePosition_one hlength hcue] at ih
        obtain ⟨calls, hspoken, halerts, hpasses⟩ := ih
        refine ⟨text :: calls, ?_, ?_, hpasses.prepend [text] (textsFrom_eq hcue)⟩
        · rw [spokenLines, List.filter_cons_of_neg (by simp [isSpoken, hcall])]
          exact hspoken
        · rw [alertCalls, List.filterMap_cons_some hcall, ← alertCalls, ← halerts]
          rfl

end Typewriter
