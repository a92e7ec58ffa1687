import Typewriter.Decimal.Literal
import Typewriter.Proofs.Numeral

/-!
# What a decimal literal stands for

`Decimal.Denotes` is the grammar of decimal literals with their values: a sign, and then a word or
digits with at most one point and at most one exponent.  `read_eq_ok_iff` says that reading accepts
just these literals and gives their exact values.

A reader cuts its text where a class of characters ends, so each lemma about the text in front of a
cut asks what the text behind it starts with.
-/

namespace Typewriter

variable {digits rest : List Char}

theorem takeWhile_isDigit_append (hdigits : AllDigits digits)
    (hrest : ∀ c, rest.head? = some c → c.isDigit = false) :
    (digits ++ rest).takeWhile Char.isDigit = digits := by
  rw [List.takeWhile_append_of_pos hdigits]
  cases rest with
  | nil => simp
  | cons c rest => simp [hrest c rfl]

theorem dropWhile_isDigit_append (hdigits : AllDigits digits)
    (hrest : ∀ c, rest.head? = some c → c.isDigit = false) :
    (digits ++ rest).dropWhile Char.isDigit = rest := by
  rw [List.dropWhile_append_of_pos hdigits]
  cases rest with
  | nil => rfl
  | cons c rest => simp [hrest c rfl]

theorem allDigits_takeWhile (cs : List Char) : AllDigits (cs.takeWhile Char.isDigit) :=
  List.all_eq_true.mp List.all_takeWhile

namespace Decimal

/-- A sign, or none.  The flag tells whether the number is negative. -/
inductive IsSign : List Char → Bool → Prop
  | missing : IsSign [] false
  | plus : IsSign ['+'] false
  | minus : IsSign ['-'] true

/-- Digits with at most one point, cut into whole part and fraction. -/
inductive IsMantissa : List Char → List Char → List Char → Prop
  | whole {whole : List Char} (hwhole : AllDigits whole) (hne : whole ≠ []) :
      IsMantissa whole whole []
  | point {whole fraction : List Char} (hwhole : AllDigits whole) (hfraction : AllDigits fraction)
      (hne : whole ≠ [] ∨ fraction ≠ []) : IsMantissa (whole ++ '.' :: fraction) whole fraction

/-- An exponent, or none. -/
inductive IsExponent : List Char → Int → Prop
  | missing : IsExponent [] 0
  | mark {mark : Char} {sign digits : List Char} {negative : Bool} (hmark : mark = 'e' ∨ mark = 'E')
      (hsign : IsSign sign negative) (hdigits : AllDigits digits) (hne : digits ≠ []) :
      IsExponent (mark :: (sign ++ digits))
        (if negative then -(digitsNumber digits : Int) else digitsNumber digits)

/-- A text in small letters. -/
def lower (cs : List Char) : String := String.ofList (cs.map Char.toLower)

/-- A literal without its sign, and what it stands for behind the sign. -/
inductive Unsigned (negative : Bool) : List Char → Decimal → Prop
  | infinite {word : List Char} (hword : lower word = "inf" ∨ lower word = "infinity") :
      Unsigned negative word (.infinite negative)
  | nan {word : List Char} (hword : lower word = "nan") : Unsigned negative word .nan
  | finite {mantissa whole fraction exponent : List Char} {e : Int}
      (hmantissa : IsMantissa mantissa whole fraction) (hexponent : IsExponent exponent e) :
      Unsigned negative (mantissa ++ exponent)
        (.finite negative (digitsNumber (whole ++ fraction)) (e - fraction.length))

/-- A literal and what it stands for. -/
def Denotes (cs : List Char) (value : Decimal) : Prop :=
  ∃ sign negative rest, IsSign sign negative ∧ Unsigned negative rest value ∧ cs = sign ++ rest

variable {cs sign mantissa whole fraction exponent : List Char} {negative : Bool} {e : Int}
  {value : Decimal}

theorem digitsValue_eq (cs : List Char) : digitsValue cs = digitsNumber cs := by
  rw [digitsNumber, Nat.ofDigitChars_eq_foldl, digitsValue]
  simp only [Nat.mul_comm]

/-! ## Signs -/

theorem exists_sign (cs : List Char) :
    ∃ sign, IsSign sign (readSign cs).1 ∧ cs = sign ++ (readSign cs).2 := by
  unfold readSign
  split
  · exact ⟨['+'], .plus, rfl⟩
  · exact ⟨['-'], .minus, rfl⟩
  · exact ⟨[], .missing, rfl⟩

/-- A sign is read in front of a text that does not start with one. -/
theorem readSign_append (hsign : IsSign sign negative)
    (hrest : ∀ c, rest.head? = some c → c ≠ '+' ∧ c ≠ '-') :
    readSign (sign ++ rest) = (negative, rest) := by
  cases hsign with
  | plus => rfl
  | minus => rfl
  | missing =>
      rw [List.nil_append]
      unfold readSign
      split
      · exact absurd rfl (hrest '+' rfl).1
      · exact absurd rfl (hrest '-' rfl).2
      · rfl

theorem ne_sign_of_isDigit {c : Char} (hc : c.isDigit = true) : c ≠ '+' ∧ c ≠ '-' := by
  constructor <;> rintro rfl <;> contradiction

/-! ## Exponents -/

theorem readExponent?_eq_some_iff :
    readExponent? cs = some e ↔
      ∃ sign digits negative, IsSign sign negative ∧ AllDigits digits ∧ digits ≠ [] ∧
        cs = sign ++ digits ∧
        e = if negative then -(digitsNumber digits : Int) else digitsNumber digits := by
  constructor
  · intro hread
    obtain ⟨sign, hsign, hcs⟩ := exists_sign cs
    unfold readExponent? at hread
    dsimp only at hread
    split at hread
    · contradiction
    · rename_i hdigits
      simp only [Bool.or_eq_true, Bool.not_eq_true', not_or, Bool.not_eq_false,
        List.isEmpty_iff, List.all_eq_true] at hdigits
      refine ⟨sign, (readSign cs).2, (readSign cs).1, hsign, hdigits.2, hdigits.1, hcs, ?_⟩
      rw [← digitsValue_eq]
      split at hread
      · rw [if_pos ‹_›, Option.some.inj hread]
      · rw [if_neg ‹_›, Option.some.inj hread]
  · rintro ⟨sign, digits, negative, hsign, hdigits, hne, rfl, rfl⟩
    have hhead : ∀ c, digits.head? = some c → c ≠ '+' ∧ c ≠ '-' := fun c hc =>
      ne_sign_of_isDigit (hdigits c (List.mem_of_head? hc))
    have hall : digits.all Char.isDigit = true := List.all_eq_true.mpr hdigits
    have hempty : digits.isEmpty = false := by simpa using hne
    rw [readExponent?, readSign_append hsign hhead]
    cases negative <;> simp [hall, hempty, digitsValue_eq]

/-! ## Literals made of digits -/

/-- What follows the digits of the whole part: a fraction with its point, or nothing of it. -/
theorem exists_fraction (cs : List Char) :
    ∃ point, cs = point ++ (readFraction cs).2 ∧ AllDigits (readFraction cs).1 ∧
      (point = [] ∧ (readFraction cs).1 = [] ∨ point = '.' :: (readFraction cs).1) := by
  unfold readFraction
  split
  · rename_i cs
    refine ⟨'.' :: cs.takeWhile Char.isDigit, ?_, allDigits_takeWhile cs, .inr rfl⟩
    rw [List.cons_append, List.takeWhile_append_dropWhile]
  · exact ⟨[], rfl, fun c hc => absurd hc List.not_mem_nil, .inl ⟨rfl, rfl⟩⟩

theorem exists_mantissa (cs : List Char)
    (hne : cs.takeWhile Char.isDigit ≠ [] ∨
      (readFraction (cs.dropWhile Char.isDigit)).1 ≠ []) :
    ∃ mantissa, IsMantissa mantissa (cs.takeWhile Char.isDigit)
        (readFraction (cs.dropWhile Char.isDigit)).1 ∧
      cs = mantissa ++ (readFraction (cs.dropWhile Char.isDigit)).2 := by
  obtain ⟨point, hcut, hfraction, hpoint⟩ := exists_fraction (cs.dropWhile Char.isDigit)
  refine ⟨cs.takeWhile Char.isDigit ++ point, ?_, ?_⟩
  · rcases hpoint with ⟨rfl, hnil⟩ | hpoint
    · rw [hnil] at hne ⊢
      rw [List.append_nil]
      exact .whole (allDigits_takeWhile cs) (hne.resolve_right fun h => h rfl)
    · rw [hpoint]
      exact .point (allDigits_takeWhile cs) hfraction hne
  · rw [List.append_assoc, ← hcut, List.takeWhile_append_dropWhile]

/-- A literal starts with a digit or a point behind its sign. -/
theorem IsMantissa.head? (hmantissa : IsMantissa mantissa whole fraction) :
    ∃ c, mantissa.head? = some c ∧ (c.isDigit = true ∨ c = '.') := by
  cases hmantissa with
  | whole hwhole hne =>
      obtain ⟨c, rest, rfl⟩ := List.exists_cons_of_ne_nil hne
      exact ⟨c, rfl, .inl (hwhole c List.mem_cons_self)⟩
  | point hwhole hfraction hne =>
      cases whole with
      | nil => exact ⟨'.', rfl, .inr rfl⟩
      | cons c rest => exact ⟨c, rfl, .inl (hwhole c List.mem_cons_self)⟩

theorem IsExponent.head? (hexponent : IsExponent exponent e) {c : Char}
    (hc : exponent.head? = some c) : c = 'e' ∨ c = 'E' := by
  cases hexponent with
  | missing => contradiction
  | mark hmark => exact Option.some.inj hc ▸ hmark

theorem IsExponent.head?_not_isDigit (hexponent : IsExponent exponent e) {c : Char}
    (hc : exponent.head? = some c) : c.isDigit = false := by
  rcases hexponent.head? hc with rfl | rfl <;> rfl

theorem IsMantissa.takeWhile_append (hmantissa : IsMantissa mantissa whole fraction)
    (hexponent : IsExponent exponent e) :
    (mantissa ++ exponent).takeWhile Char.isDigit = whole := by
  cases hmantissa with
  | whole hwhole => exact takeWhile_isDigit_append hwhole fun c => hexponent.head?_not_isDigit
  | point hwhole =>
      rw [List.append_assoc]
      refine takeWhile_isDigit_append hwhole fun c hc => ?_
      rw [← Option.some.inj hc]
      rfl

theorem IsMantissa.readFraction_append (hmantissa : IsMantissa mantissa whole fraction)
    (hexponent : IsExponent exponent e) :
    readFraction ((mantissa ++ exponent).dropWhile Char.isDigit) = (fraction, exponent) := by
  cases hmantissa with
  | whole hwhole =>
      rw [dropWhile_isDigit_append hwhole fun c => hexponent.head?_not_isDigit]
      unfold readFraction
      split
      · rcases hexponent.head? rfl with h | h <;> contradiction
      · rfl
  | point hwhole hfraction =>
      have hpoint : ∀ c, ('.' :: fraction ++ exponent).head? = some c → c.isDigit = false := by
        intro c hc
        rw [← Option.some.inj hc]
        rfl
      rw [List.append_assoc, dropWhile_isDigit_append hwhole hpoint, List.cons_append, readFraction,
        takeWhile_isDigit_append hfraction fun c => hexponent.head?_not_isDigit,
        dropWhile_isDigit_append hfraction fun c => hexponent.head?_not_isDigit]

theorem IsMantissa.ne_nil (hmantissa : IsMantissa mantissa whole fraction) :
    ¬ (whole.isEmpty && fraction.isEmpty) = true := by
  cases hmantissa with
  | whole hwhole hne => simpa using hne
  | point hwhole hfraction hne =>
      rcases hne with hne | hne <;> simp [hne]

theorem readFinite?_eq_some_iff :
    readFinite? negative cs = some value ↔
      ∃ mantissa whole fraction exponent e, IsMantissa mantissa whole fraction ∧
        IsExponent exponent e ∧ cs = mantissa ++ exponent ∧
        value = .finite negative (digitsNumber (whole ++ fraction)) (e - fraction.length) := by
  constructor
  · intro hread
    unfold readFinite? at hread
    dsimp only at hread
    split at hread
    · contradiction
    · rename_i hsome
      have hne : cs.takeWhile Char.isDigit ≠ [] ∨
          (readFraction (cs.dropWhile Char.isDigit)).1 ≠ [] := by
        rw [Bool.and_eq_true, List.isEmpty_iff, List.isEmpty_iff] at hsome
        exact Decidable.not_and_iff_not_or_not.mp hsome
      obtain ⟨mantissa, hmantissa, hcs⟩ := exists_mantissa cs hne
      refine ⟨mantissa, cs.takeWhile Char.isDigit, (readFraction (cs.dropWhile Char.isDigit)).1,
        (readFraction (cs.dropWhile Char.isDigit)).2, ?_⟩
      split at hread
      · rename_i hrest
        refine ⟨0, hmantissa, hrest ▸ .missing, hcs, ?_⟩
        rw [← Option.some.inj hread, digitsValue_eq, Int.zero_sub]
      · rename_i mark exponent hrest
        split at hread
        · rename_i hmark
          obtain ⟨e, he, rfl⟩ := Option.map_eq_some_iff.mp hread
          obtain ⟨sign, digits, negative, hsign, hdigits, hne, rfl, rfl⟩ :=
            readExponent?_eq_some_iff.mp he
          have hexponent := IsExponent.mark hmark hsign hdigits hne
          rw [← hrest] at hexponent
          refine ⟨_, hmantissa, hexponent, hcs, ?_⟩
          rw [digitsValue_eq]
        · contradiction
  · rintro ⟨mantissa, whole, fraction, exponent, e, hmantissa, hexponent, rfl, rfl⟩
    rw [readFinite?, hmantissa.takeWhile_append hexponent, hmantissa.readFraction_append hexponent]
    dsimp only
    rw [if_neg hmantissa.ne_nil]
    cases hexponent with
    | missing => simp [digitsValue_eq]
    | @mark mark sign digits negative hmark hsign hdigits hne =>
        have hread := readExponent?_eq_some_iff.mpr
          ⟨sign, digits, negative, hsign, hdigits, hne, rfl, rfl⟩
        simp [hmark, hread, digitsValue_eq]

/-! ## Literals -/

theorem toLower_of_not_upper {c : Char} (hc : ¬ (c.val ≥ 'A'.val ∧ c.val ≤ 'Z'.val)) :
    c.toLower = c :=
  dif_neg hc

theorem toLower_of_isDigit {c : Char} (hc : c.isDigit = true) : c.toLower = c := by
  rw [Char.isDigit_iff_toNat] at hc
  refine toLower_of_not_upper fun hupper => ?_
  have hle : 65 ≤ c.toNat := UInt32.le_iff_toNat_le.mp hupper.1
  have hge : c.toNat ≤ 57 := hc.2
  omega

theorem head?_of_lower {word : List Char} {text : String} (hword : lower word = text) {c : Char}
    (hc : word.head? = some c) : text.toList.head? = some c.toLower := by
  rw [← hword, lower, String.toList_ofList, List.head?_map, hc]
  rfl

/-- A text that starts like a number is no word. -/
theorem IsMantissa.lower_append_ne (hmantissa : IsMantissa mantissa whole fraction)
    {text : String} {first : Char} (htext : text.toList.head? = some first)
    (hfirst : first.isDigit = false ∧ first ≠ '.') : lower (mantissa ++ rest) ≠ text := by
  intro hword
  obtain ⟨c, hc, hform⟩ := hmantissa.head?
  have hhead : (mantissa ++ rest).head? = some c := by rw [List.head?_append, hc]; rfl
  rw [head?_of_lower hword hhead] at htext
  obtain rfl := Option.some.inj htext
  rcases hform with hform | rfl
  · rw [toLower_of_isDigit hform, hform] at hfirst
    exact absurd hfirst.1 (by decide)
  · exact hfirst.2 rfl

theorem readUnsigned?_eq_some_iff :
    readUnsigned? negative cs = some value ↔ Unsigned negative cs value := by
  constructor
  · intro hread
    unfold readUnsigned? at hread
    dsimp only at hread
    split at hread
    · rw [← Option.some.inj hread]
      exact .infinite ‹_›
    · split at hread
      · rw [← Option.some.inj hread]
        exact .nan ‹_›
      · obtain ⟨mantissa, whole, fraction, exponent, e, hmantissa, hexponent, rfl, rfl⟩ :=
          readFinite?_eq_some_iff.mp hread
        exact .finite hmantissa hexponent
  · intro hvalue
    rw [readUnsigned?, show String.ofList (cs.map Char.toLower) = lower cs from rfl]
    cases hvalue with
    | infinite hword => rw [if_pos hword]
    | nan hword =>
        rw [if_neg (by rw [hword]; decide), if_pos hword]
    | @finite mantissa _ _ exponent _ hmantissa hexponent =>
        have hinf : lower (mantissa ++ exponent) ≠ "inf" :=
          hmantissa.lower_append_ne (by rfl) (by decide : 'i'.isDigit = false ∧ 'i' ≠ '.')
        have hinfinity : lower (mantissa ++ exponent) ≠ "infinity" :=
          hmantissa.lower_append_ne (by rfl) (by decide : 'i'.isDigit = false ∧ 'i' ≠ '.')
        have hnan : lower (mantissa ++ exponent) ≠ "nan" :=
          hmantissa.lower_append_ne (by rfl) (by decide : 'n'.isDigit = false ∧ 'n' ≠ '.')
        rw [if_neg (not_or.mpr ⟨hinf, hinfinity⟩), if_neg hnan]
        exact readFinite?_eq_some_iff.mpr ⟨_, _, _, _, _, hmantissa, hexponent, rfl, rfl⟩

/-- The words start with a letter, and the numbers with a digit or a point. -/
theorem Unsigned.head? (hvalue : Unsigned negative cs value) :
    ∃ c, cs.head? = some c ∧ c ≠ '+' ∧ c ≠ '-' := by
  have hletter {text : String} (hword : lower cs = text) (hne : text ≠ "")
      (htext : text.toList.head? ≠ some '+' ∧ text.toList.head? ≠ some '-') :
      ∃ c, cs.head? = some c ∧ c ≠ '+' ∧ c ≠ '-' := by
    cases cs with
    | nil => exact absurd hword.symm hne
    | cons c rest =>
        have hhead := head?_of_lower hword rfl
        refine ⟨c, rfl, ?_, ?_⟩
        · rintro rfl
          exact htext.1 hhead
        · rintro rfl
          exact htext.2 hhead
  cases hvalue with
  | infinite hword =>
      rcases hword with hword | hword <;> exact hletter hword (by decide) (by decide)
  | nan hword => exact hletter hword (by decide) (by decide)
  | finite hmantissa hexponent =>
      obtain ⟨c, hc, hform⟩ := hmantissa.head?
      refine ⟨c, by rw [List.head?_append, hc]; rfl, ?_⟩
      rcases hform with hdigit | rfl
      · exact ne_sign_of_isDigit hdigit
      · decide

/-- Reading accepts just the literals, and gives what they stand for. -/
theorem read_eq_ok_iff : read cs = .ok value ↔ Denotes cs value := by
  constructor
  · intro hread
    unfold read at hread
    obtain ⟨sign, hsign, hcs⟩ := exists_sign cs
    split at hread
    · contradiction
    · dsimp only at hread
      split at hread
      · rename_i hvalue
        rw [← Except.ok.inj hread]
        exact ⟨sign, (readSign cs).1, (readSign cs).2, hsign,
          readUnsigned?_eq_some_iff.mp hvalue, hcs⟩
      · contradiction
  · rintro ⟨sign, negative, rest, hsign, hvalue, rfl⟩
    obtain ⟨c, hc, hplus, hminus⟩ := hvalue.head?
    have hne : (sign ++ rest).isEmpty = false := by
      cases rest with
      | nil => contradiction
      | cons d rest => simp
    have hsigned : readSign (sign ++ rest) = (negative, rest) := by
      refine readSign_append hsign fun d hd => ?_
      rw [← Option.some.inj (hc.symm.trans hd)]
      exact ⟨hplus, hminus⟩
    rw [read, hne, hsigned]
    simp [readUnsigned?_eq_some_iff.mpr hvalue]

/-! ## Characters -/

/-- The characters of literals that are no digits, in small letters: the signs, the point, and the
letters of the words and of exponents. -/
def literalSigns : List Char := ['+', '-', '.', 'a', 'e', 'f', 'i', 'n', 't', 'y']

/-- The characters of literals. -/
def IsLiteralChar (c : Char) : Prop := c.isDigit = true ∨ c.toLower ∈ literalSigns

/-- The numbers of the characters of literals: neither blanks nor quotation marks, backslashes,
hashes or the letter m are among them. -/
theorem IsLiteralChar.toNat {c : Char} (hc : IsLiteralChar c) :
    43 ≤ c.toNat ∧ c.toNat ≤ 90 ∨ 97 ≤ c.toNat ∧ c.toNat ≤ 121 ∧ c.toNat ≠ 109 := by
  rcases hc with hdigit | hletter
  · rw [Char.isDigit_iff_toNat] at hdigit
    have hle : 48 ≤ c.toNat := hdigit.1
    have hge : c.toNat ≤ 57 := hdigit.2
    omega
  · by_cases hupper : c.val ≥ 'A'.val ∧ c.val ≤ 'Z'.val
    · have hle : 65 ≤ c.toNat := UInt32.le_iff_toNat_le.mp hupper.1
      have hge : c.toNat ≤ 90 := UInt32.le_iff_toNat_le.mp hupper.2
      omega
    · rw [toLower_of_not_upper hupper] at hletter
      simp only [literalSigns, List.mem_cons, List.not_mem_nil, or_false] at hletter
      rcases hletter with rfl | rfl | rfl | rfl | rfl | rfl | rfl | rfl | rfl | rfl <;> decide

theorem isLiteralChar_of_lower {word : List Char} {text : String} (hword : lower word = text)
    (htext : text.toList.all (· ∈ literalSigns) = true) {c : Char} (hc : c ∈ word) :
    IsLiteralChar c := by
  have hmem : c.toLower ∈ text.toList := by
    rw [← hword, lower, String.toList_ofList]
    exact List.mem_map_of_mem hc
  exact .inr (of_decide_eq_true (List.all_eq_true.mp htext c.toLower hmem))

theorem IsSign.isLiteralChar (hsign : IsSign sign negative) {c : Char} (hc : c ∈ sign) :
    IsLiteralChar c := by
  cases hsign with
  | missing => contradiction
  | plus =>
      rw [List.mem_singleton.mp hc]
      exact .inr (by decide)
  | minus =>
      rw [List.mem_singleton.mp hc]
      exact .inr (by decide)

theorem IsMantissa.isLiteralChar (hmantissa : IsMantissa mantissa whole fraction) {c : Char}
    (hc : c ∈ mantissa) : IsLiteralChar c := by
  cases hmantissa with
  | whole hwhole => exact .inl (hwhole c hc)
  | point hwhole hfraction =>
      rcases List.mem_append.mp hc with hc | hc
      · exact .inl (hwhole c hc)
      · rcases List.mem_cons.mp hc with rfl | hc
        · exact .inr (by decide)
        · exact .inl (hfraction c hc)

theorem IsExponent.isLiteralChar (hexponent : IsExponent exponent e) {c : Char}
    (hc : c ∈ exponent) : IsLiteralChar c := by
  cases hexponent with
  | missing => contradiction
  | mark hmark hsign hdigits =>
      rcases List.mem_cons.mp hc with rfl | hc
      · rcases hmark with rfl | rfl <;> exact .inr (by decide)
      · rcases List.mem_append.mp hc with hc | hc
        · exact hsign.isLiteralChar hc
        · exact .inl (hdigits c hc)

theorem Denotes.isLiteralChar (hvalue : Denotes cs value) {c : Char} (hc : c ∈ cs) :
    IsLiteralChar c := by
  obtain ⟨sign, negative, rest, hsign, hvalue, rfl⟩ := hvalue
  rcases List.mem_append.mp hc with hc | hc
  · exact hsign.isLiteralChar hc
  · cases hvalue with
    | infinite hword =>
        rcases hword with hword | hword <;>
          exact isLiteralChar_of_lower hword (by decide) hc
    | nan hword => exact isLiteralChar_of_lower hword (by decide) hc
    | finite hmantissa hexponent =>
        rcases List.mem_append.mp hc with hc | hc
        · exact hmantissa.isLiteralChar hc
        · exact hexponent.isLiteralChar hc

theorem Denotes.ne_nil (hvalue : Denotes cs value) : cs ≠ [] := by
  obtain ⟨sign, negative, rest, hsign, hvalue, rfl⟩ := hvalue
  obtain ⟨c, hc, -⟩ := hvalue.head?
  cases rest with
  | nil => contradiction
  | cons d rest => exact List.append_ne_nil_of_right_ne_nil sign (List.cons_ne_nil d rest)

end Decimal

end Typewriter
