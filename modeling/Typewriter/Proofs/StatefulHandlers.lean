import Typewriter.Proofs.Walk

/-!
# Handlers with a state

A handler is a function of the earlier queries and the present one, and a walk puts a query to it
when it needs the reply.  Here the handler is a program with a state of its own, which it may change
each time it is asked, and the walk hands the state on.  It comes to the same: the walk is that of a
handler which works the state out from the earlier queries, and the state behind the walk is the one
after the queries of its lines (`Script.walkAsking_eq`).  So the handler is asked these queries, in
this order, and nothing else.  They belong to lines of the script whose positions grow
(`Script.asksOnce_walkFrom`), so it is asked at most once for each.
-/

namespace Typewriter

/-- A handler that may change its state whenever it is asked. -/
abbrev StatefulHandler (σ : Type) := σ → Query → Reply × σ

namespace StatefulHandler

variable {σ : Type}

/-- The state after some queries. -/
def after (ask : StatefulHandler σ) (state : σ) (queries : List Query) : σ :=
  queries.foldl (fun state query => (ask state query).2) state

/-- The handler that works the state out from the earlier queries. -/
def remembering (ask : StatefulHandler σ) (state : σ) : Handler :=
  fun asked query => (ask (ask.after state asked) query).1

theorem after_concat (ask : StatefulHandler σ) (state : σ) (queries : List Query) (query : Query) :
    ask.after state (queries ++ [query]) = (ask (ask.after state queries) query).2 := by
  unfold after
  rw [List.foldl_append]
  rfl

end StatefulHandler

namespace Walk

variable {σ : Type}

/-- The lines that were put to the handler on the way. -/
def queries (walk : Walk) : List Query :=
  walk.visits.filterMap Visit.query?

/-- Walk through cues like `Walk.through`, but hand on the state of the handler. -/
def throughAsking (ask : StatefulHandler σ) : σ → Script → (position skip : Nat) → Walk × σ
  | state, [], _, _ => (⟨[], [], .ending⟩, state)
  | state, _ :: cues, position, skip + 1 => throughAsking ask state cues (position + 1) skip
  | state, .effect name :: cues, position, 0 =>
      let (walk, last) := throughAsking ask state cues (position + 1) 0
      (walk.visiting ⟨position, .effect name⟩ [.effect name], last)
  | state, .pause length :: _, position, 0 =>
      (⟨[⟨position, .pause length⟩], [], .pause length (position + 1)⟩, state)
  | state, .line text :: cues, position, 0 =>
      let (reply, state) := ask state ⟨text, position⟩
      if position < reply.next then
        let (walk, last) :=
          throughAsking ask state cues (position + 1) (reply.next - (position + 1))
        (walk.visiting ⟨position, .line text⟩ reply.events, last)
      else (⟨[⟨position, .line text⟩], reply.events, .line position⟩, state)

/-- To hand the state on comes to the same as to work it out from the earlier queries. -/
theorem throughAsking_eq (ask : StatefulHandler σ) (state : σ) (asked : List Query)
    (cues : Script) (position skip : Nat) :
    throughAsking ask (ask.after state asked) cues position skip =
      (through (ask.remembering state) asked cues position skip,
        ask.after state
          (asked ++ (through (ask.remembering state) asked cues position skip).queries)) := by
  induction cues generalizing asked position skip with
  | nil => simp [throughAsking, through, queries]
  | cons cue cues ih =>
      cases skip with
      | succ skip => exact ih asked (position + 1) skip
      | zero =>
          cases cue with
          | effect name =>
              simp only [throughAsking, through, ih]
              rfl
          | pause length =>
              have hqueries : queries ⟨[⟨position, .pause length⟩], [],
                  .pause length (position + 1)⟩ = [] := rfl
              simp only [throughAsking, through, hqueries, List.append_nil]
          | line text =>
              have hreply : (ask (ask.after state asked) ⟨text, position⟩).1 =
                  ask.remembering state asked ⟨text, position⟩ := rfl
              -- The state behind the query is the one for the rest of the way.
              have hstate := ask.after_concat state asked ⟨text, position⟩
              simp only [throughAsking, through, hreply, ← hstate]
              by_cases hnext : position < (ask.remembering state asked ⟨text, position⟩).next
              · simp only [if_pos hnext, ih, List.append_assoc]
                rfl
              · simp only [if_neg hnext]
                rfl

end Walk

/-- A walk from a position goes through a script without turning back: it comes to no more cues than
there are from the position on, and puts no line to the handler twice. -/
structure Walk.AsksOnce (script : Script) (position : Nat) (walk : Walk) : Prop where
  length_le : walk.visits.length ≤ script.length - position
  pairwise : walk.queries.Pairwise fun earlier later => earlier.position < later.position
  lineAt?_eq : ∀ query ∈ walk.queries,
    position ≤ query.position ∧ script.lineAt? query.position = some query.text

namespace Script

variable {σ : Type}

/-- Walk through a script from a position, and hand on the state of the handler. -/
def walkAsking (script : Script) (ask : StatefulHandler σ) (state : σ) (position : Nat) :
    Walk × σ :=
  Walk.throughAsking ask state script 0 position

theorem walkAsking_eq (script : Script) (ask : StatefulHandler σ) (state : σ) (asked : List Query)
    (position : Nat) :
    script.walkAsking ask (ask.after state asked) position =
      (script.walkFrom (ask.remembering state) asked position,
        ask.after state
          (asked ++ (script.walkFrom (ask.remembering state) asked position).queries)) :=
  Walk.throughAsking_eq ask state asked script 0 position

theorem asksOnce_walkFrom (script : Script) (handler : Handler) (asked : List Query)
    (position : Nat) : (script.walkFrom handler asked position).AsksOnce script position := by
  refine walkFrom_induction handler
    (motive := fun _ position walk => walk.AsksOnce script position)
    ?behind ?pause ?left ?effect ?handled asked position
  case behind =>
    intro _ position _
    exact ⟨Nat.zero_le _, List.Pairwise.nil, by simp [Walk.queries]⟩
  case pause =>
    intro _ position length hcue
    have hlt : position < script.length := (List.getElem?_eq_some_iff.mp hcue).1
    exact ⟨Nat.sub_pos_of_lt hlt, List.Pairwise.nil, fun _ hquery => absurd hquery List.not_mem_nil⟩
  case left =>
    intro _ position text hcue _
    have hlt : position < script.length := (List.getElem?_eq_some_iff.mp hcue).1
    refine ⟨Nat.sub_pos_of_lt hlt, List.pairwise_singleton _ _, fun query hquery => ?_⟩
    rw [List.mem_singleton.mp hquery]
    exact ⟨Nat.le_refl _, lineAt?_eq_some_iff.mpr hcue⟩
  case effect =>
    intro _ position name walk hcue ih
    have hlt : position < script.length := (List.getElem?_eq_some_iff.mp hcue).1
    obtain ⟨hlength, hpairwise, hlines⟩ := ih
    refine ⟨?_, hpairwise, fun query hquery => ?_⟩
    · rw [Walk.visits_visiting, List.length_cons]
      omega
    · obtain ⟨hle, hline⟩ := hlines query hquery
      exact ⟨Nat.le_of_succ_le hle, hline⟩
  case handled =>
    -- The line is put to the handler before those behind it.
    intro _ position text walk hcue hnext ih
    have hlt : position < script.length := (List.getElem?_eq_some_iff.mp hcue).1
    obtain ⟨hlength, hpairwise, hlines⟩ := ih
    refine ⟨?_, List.pairwise_cons.mpr ⟨fun query hquery => ?_, hpairwise⟩,
      List.forall_mem_cons.mpr ⟨⟨Nat.le_refl _, lineAt?_eq_some_iff.mpr hcue⟩, ?_⟩⟩
    · rw [Walk.visits_visiting, List.length_cons]
      omega
    · exact Nat.lt_of_lt_of_le hnext (hlines query hquery).1
    · intro query hquery
      obtain ⟨hle, hline⟩ := hlines query hquery
      exact ⟨by omega, hline⟩

end Script

end Typewriter
