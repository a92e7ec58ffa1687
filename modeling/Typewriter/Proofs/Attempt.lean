/-!
# Attempts

What can fail returns an `Except`.  Attempts that are made one after the other succeed only if each
of them does.
-/

namespace Typewriter

theorem bind_eq_ok {ε α β : Type} {attempt : Except ε α} {next : α → Except ε β} {result : β}
    (h : attempt >>= next = .ok result) :
    ∃ value, attempt = .ok value ∧ next value = .ok result := by
  cases attempt with
  | error fault => simp [Bind.bind, Except.bind] at h
  | ok value => exact ⟨value, rfl, h⟩

/-- Another name for its fault does not make an attempt succeed. -/
theorem eq_ok_of_mapError {ε ε' α : Type} {rename : ε → ε'} {attempt : Except ε α} {value : α}
    (h : attempt.mapError rename = .ok value) : attempt = .ok value := by
  cases attempt with
  | error fault => contradiction
  | ok found => rw [Except.ok.inj h]

theorem map_fst_eq_ok_iff {ε α β : Type} {attempt : Except ε (α × β)} {first : α} :
    attempt.map Prod.fst = .ok first ↔ ∃ second, attempt = .ok (first, second) := by
  cases attempt with
  | error fault => exact iff_of_false nofun fun ⟨_, h⟩ => nomatch h
  | ok found =>
      obtain ⟨first', second⟩ := found
      simp [Except.map]

/-- A test that only a successful attempt passes. -/
theorem exists_ok_of_any {ε α : Type} {attempt : Except ε α} {test : α → Bool}
    (hany : attempt.toOption.any test) : ∃ value, attempt = .ok value ∧ test value = true := by
  cases attempt with
  | error fault => contradiction
  | ok value => exact ⟨value, rfl, hany⟩

end Typewriter
