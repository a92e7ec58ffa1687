import Typewriter.Numeral

/-!
# What a numeral stands for

`Numeral.Denotes` gives the form of a numeral and its value, with the positional value of the
standard library.  Reading goes digit by digit and checks for an overflow after each of them;
`read_eq_ok_iff` says that it accepts just the numerals whose value fits into 64 bits.
-/

namespace Typewriter

/-- All characters are decimal digits. -/
def AllDigits (cs : List Char) : Prop := ∀ c ∈ cs, c.isDigit = true

/-- The number that a run of digits stands for. -/
abbrev digitsNumber (cs : List Char) : Nat := Nat.ofDigitChars 10 cs 0

theorem allDigits_cons {c : Char} {cs : List Char} :
    AllDigits (c :: cs) ↔ c.isDigit = true ∧ AllDigits cs :=
  List.forall_mem_cons

theorem le_ofDigitChars (value : Nat) (cs : List Char) : value ≤ Nat.ofDigitChars 10 cs value := by
  induction cs generalizing value with
  | nil => exact Nat.le_refl value
  | cons c cs ih =>
      rw [Nat.ofDigitChars_cons]
      have hrest := ih (10 * value + (c.toNat - '0'.toNat))
      omega

theorem allDigits_toDigits (n : Nat) : AllDigits (Nat.toDigits 10 n) := fun _ hc =>
  Nat.isDigit_of_mem_toDigits (by decide) (by decide) hc

theorem digitsNumber_toDigits (n : Nat) : digitsNumber (Nat.toDigits 10 n) = n :=
  Nat.ofDigitChars_toDigits (by decide) (by decide)

namespace Numeral

/-- A numeral is a run of digits behind at most one plus sign. -/
def Denotes (cs : List Char) (m : UInt64) : Prop :=
  ∃ digits, (cs = digits ∨ cs = '+' :: digits) ∧ digits ≠ [] ∧ AllDigits digits ∧
    digitsNumber digits = m.toNat

variable {cs : List Char} {m value : UInt64}

theorem digit?_eq_some {c : Char} (hc : c.isDigit = true) :
    digit? c = some (c.toNat - '0'.toNat) := if_pos hc

theorem digit?_eq_none {c : Char} (hc : ¬ c.isDigit = true) : digit? c = none := if_neg hc

/-- The digits are read just if the value behind the last of them fits, as no digit lowers it. -/
theorem readDigits_eq_ok_iff :
    readDigits value cs = .ok m ↔
      AllDigits cs ∧ Nat.ofDigitChars 10 cs value.toNat = m.toNat := by
  induction cs generalizing value with
  | nil => simp [readDigits, AllDigits, UInt64.toNat_inj]
  | cons c cs ih =>
      rw [allDigits_cons, Nat.ofDigitChars_cons, Nat.mul_comm]
      by_cases hc : c.isDigit = true
      · rw [readDigits, digit?_eq_some hc]
        dsimp only
        split
        · rename_i hfits
          rw [ih, UInt64.toNat_ofNat_of_lt' hfits, and_iff_right hc]
        · rename_i hlarge
          have hle := le_ofDigitChars (value.toNat * 10 + (c.toNat - '0'.toNat)) cs
          have hm := m.toNat_lt_size
          constructor
          · intro h
            contradiction
          · intro h
            omega
      · rw [readDigits, digit?_eq_none hc]
        simp [hc]

theorem not_isDigit_plus : ¬ '+'.isDigit = true := by decide

/-- Reading accepts just the numerals, and gives their value. -/
theorem read_eq_ok_iff : read cs = .ok m ↔ Denotes cs m := by
  have hplain (hhead : ∀ digits, cs ≠ '+' :: digits) (hne : cs ≠ []) :
      readDigits 0 cs = .ok m ↔ Denotes cs m := by
    rw [readDigits_eq_ok_iff]
    constructor
    · rintro ⟨hdigits, hvalue⟩
      exact ⟨cs, .inl rfl, hne, hdigits, hvalue⟩
    · rintro ⟨digits, rfl | hplus, -, hdigits, hvalue⟩
      · exact ⟨hdigits, hvalue⟩
      · exact absurd hplus (hhead digits)
  unfold read
  split
  · simp [Denotes]
  · constructor
    · intro h
      contradiction
    · rintro ⟨digits, rfl | hplus, hne, hdigits, -⟩
      · exact absurd (hdigits '+' List.mem_cons_self) not_isDigit_plus
      · exact absurd (List.tail_eq_of_cons_eq hplus).symm hne
  · rename_i digits hne
    rw [readDigits_eq_ok_iff]
    constructor
    · rintro ⟨hdigits, hvalue⟩
      exact ⟨digits, .inr rfl, hne, hdigits, hvalue⟩
    · rintro ⟨other, rfl | hplus, -, hdigits, hvalue⟩
      · exact absurd (hdigits '+' List.mem_cons_self) not_isDigit_plus
      · obtain rfl := List.tail_eq_of_cons_eq hplus
        exact ⟨hdigits, hvalue⟩
  · rename_i hnil _ hplus
    exact hplain hplus hnil

theorem denotes_toDigits (m : UInt64) : Denotes (Nat.toDigits 10 m.toNat) m :=
  ⟨_, .inl rfl, Nat.toDigits_ne_nil, allDigits_toDigits m.toNat, digitsNumber_toDigits m.toNat⟩

theorem Denotes.ne_nil (h : Denotes cs m) : cs ≠ [] := by
  obtain ⟨digits, rfl | rfl, hne, -⟩ := h
  · exact hne
  · exact List.cons_ne_nil _ _

/-- A numeral has no characters but digits and a plus sign. -/
theorem Denotes.mem (h : Denotes cs m) {c : Char} (hc : c ∈ cs) : c.isDigit = true ∨ c = '+' := by
  obtain ⟨digits, rfl | rfl, -, hdigits, -⟩ := h
  · exact .inl (hdigits c hc)
  · rcases List.mem_cons.mp hc with rfl | hc
    · exact .inr rfl
    · exact .inl (hdigits c hc)

end Numeral

end Typewriter
