import Typewriter.Proofs.Text.Trimming
import Typewriter.Script.Comment
import Typewriter.Script.Quotation

/-!
# Quotations and comments

`Quotation.Denotes` says what stands between two quotes and which text it stands for.  Two scanners
look at it: the reader of quotations, which accepts just this (`Quotation.read_eq_ok_iff`), and the
one that cuts comments off, which keeps its own count of quotes and backslashes.  They agree on
where a quotation ends (`Comment.code_quotation`).
-/

namespace Typewriter.Script

namespace Quotation

/-- What stands between two quotes, and the text that it stands for. -/
inductive Denotes : List Char → List Char → Prop
  | nil : Denotes [] []
  | plain {c : Char} {body text : List Char} (hquote : c ≠ '"') (hslash : c ≠ '\\')
      (hbody : Denotes body text) : Denotes (c :: body) (c :: text)
  | feed {body text : List Char} (hbody : Denotes body text) :
      Denotes ('\\' :: 'n' :: body) ('\n' :: text)
  | tabulator {body text : List Char} (hbody : Denotes body text) :
      Denotes ('\\' :: 't' :: body) ('\t' :: text)
  | escaped {c : Char} {body text : List Char} (hfeed : c ≠ 'n') (htab : c ≠ 't')
      (hbody : Denotes body text) : Denotes ('\\' :: c :: body) (c :: text)

variable {cs body text rest : List Char} {c : Char}

theorem unescape_of_ne (hfeed : c ≠ 'n') (htab : c ≠ 't') : unescape c = c := by
  unfold unescape
  split
  · contradiction
  · contradiction
  · rfl

/-- An escaped character is any character. -/
theorem Denotes.unescape (c : Char) (hbody : Denotes body text) :
    Denotes ('\\' :: c :: body) (unescape c :: text) := by
  by_cases hfeed : c = 'n'
  · subst hfeed
    exact .feed hbody
  · by_cases htab : c = 't'
    · subst htab
      exact .tabulator hbody
    · rw [unescape_of_ne hfeed htab]
      exact .escaped hfeed htab hbody

theorem readBody_escaped (c : Char) (hread : readBody cs = .ok (text, rest)) :
    readBody ('\\' :: c :: cs) = .ok (Quotation.unescape c :: text, rest) := by
  rw [readBody, hread]

theorem readBody_cons (hquote : c ≠ '"') (hslash : c ≠ '\\')
    (hread : readBody cs = .ok (text, rest)) : readBody (c :: cs) = .ok (c :: text, rest) := by
  unfold readBody
  split <;> simp_all

theorem readBody_append (hbody : Denotes body text) (rest : List Char) :
    readBody (body ++ '"' :: rest) = .ok (text, rest) := by
  induction hbody with
  | nil => rfl
  | plain hquote hslash hbody ih => exact readBody_cons hquote hslash ih
  | feed hbody ih => exact readBody_escaped 'n' ih
  | tabulator hbody ih => exact readBody_escaped 't' ih
  | @escaped c body text hfeed htab hbody ih =>
      have hread := readBody_escaped c ih
      rwa [unescape_of_ne hfeed htab] at hread

theorem exists_body_of_readBody (hread : readBody cs = .ok (text, rest)) :
    ∃ body, Denotes body text ∧ cs = body ++ '"' :: rest := by
  fun_induction readBody cs generalizing text with
  | case1 => contradiction
  | case2 => contradiction
  | case3 c cs text' rest' hrest ih =>
      obtain ⟨rfl, rfl⟩ := Prod.mk.inj (Except.ok.inj hread)
      obtain ⟨body, hbody, rfl⟩ := ih hrest
      exact ⟨'\\' :: c :: body, hbody.unescape c, rfl⟩
  | case4 => contradiction
  | case5 cs =>
      obtain ⟨rfl, rfl⟩ := Prod.mk.inj (Except.ok.inj hread)
      exact ⟨[], .nil, rfl⟩
  | case6 c cs hdangling hescape hquote text' rest' hrest ih =>
      obtain ⟨rfl, rfl⟩ := Prod.mk.inj (Except.ok.inj hread)
      have hslash : c ≠ '\\' := by
        rintro rfl
        cases cs with
        | nil => exact hdangling rfl rfl
        | cons d cs => exact hescape d cs rfl rfl
      obtain ⟨body, hbody, rfl⟩ := ih hrest
      exact ⟨c :: body, .plain hquote hslash hbody, rfl⟩
  | case7 => contradiction

theorem tight_quoted (body : List Char) : Text.Tight ('"' :: (body ++ ['"'])) := by
  have hquote : Text.Tight ['"'] := Text.tight_of_all (by decide)
  exact hquote.around hquote (by decide) (by decide) body

/-- Reading accepts just a body between quotes, with blanks around it. -/
theorem read_eq_ok_iff {said : String} :
    read cs = .ok said ↔
      ∃ body, Denotes body said.toList ∧ Text.trim cs = '"' :: (body ++ ['"']) := by
  have htight := Text.tight_trim cs
  unfold read
  constructor
  · intro hread
    split at hread
    · rename_i quoted hopened
      split at hread
      · contradiction
      · rename_i text rest hbody
        dsimp only at hread
        split at hread
        · rename_i hrest
          rw [← Except.ok.inj hread, String.toList_ofList]
          obtain ⟨body, hdenotes, rfl⟩ := exists_body_of_readBody hbody
          -- What follows the closing quote ends the trimmed text, so it cannot be blanks.
          have hnil : rest = [] := by
            have hblank := Text.trim_eq_nil_iff.mp (List.isEmpty_iff.mp hrest)
            by_contra hne
            have hlast := htight.last (rest.getLast hne) (by
              rw [hopened, ← List.cons_append, List.append_cons,
                List.getLast?_append_of_ne_nil _ hne, List.getLast?_eq_getLast_of_ne_nil hne])
            rw [hblank _ (List.getLast_mem hne)] at hlast
            contradiction
          rw [hnil] at hopened
          exact ⟨body, hdenotes, hopened⟩
        · contradiction
    · contradiction
  · rintro ⟨body, hbody, hquoted⟩
    have hread := readBody_append hbody []
    simp [hquoted, hread, Text.trim_eq_nil_iff.mpr Text.AllBlank.nil]

end Quotation

namespace Comment

/-- Nothing, or a comment. -/
def IsRemark (cs : List Char) : Prop := cs = [] ∨ ∃ text, cs = '#' :: text

instance : DecidablePred IsRemark
  | [] => .isTrue (.inl rfl)
  | c :: cs => decidable_of_iff (c = '#') (by simp [IsRemark])

/-- A character without a meaning of its own to the scanner of comments. -/
def IsPlain (c : Char) : Prop := c ≠ '"' ∧ c ≠ '\\' ∧ c ≠ '#'

instance (c : Char) : Decidable (IsPlain c) :=
  inferInstanceAs (Decidable (c ≠ '"' ∧ c ≠ '\\' ∧ c ≠ '#'))

variable {cs rest : List Char} {c : Char} {quoted : Bool}

theorem code_cons (hquote : c ≠ '"') (hslash : c ≠ '\\') (hhash : quoted = true ∨ c ≠ '#') :
    code quoted (c :: cs) = c :: code quoted cs := by
  rw [code.eq_def]
  split <;> simp_all

/-- Text without quotes, backslashes and hashes is code, wherever it stands. -/
theorem code_append_of_isPlain (hcs : ∀ c ∈ cs, IsPlain c) (rest : List Char) :
    code quoted (cs ++ rest) = cs ++ code quoted rest := by
  induction cs with
  | nil => rfl
  | cons c cs ih =>
      obtain ⟨hquote, hslash, hhash⟩ := hcs c List.mem_cons_self
      rw [List.cons_append, code_cons hquote hslash (.inr hhash),
        ih fun d hd => hcs d (List.mem_cons_of_mem c hd)]
      rfl

theorem isPlain_of_isBlank (hc : Text.isBlank c = true) : IsPlain c := by
  refine ⟨?_, ?_, ?_⟩ <;> rintro rfl <;> contradiction

/-- The body of a quotation is code, and the quote behind it closes the quotation. -/
theorem code_body {body text : List Char} (hbody : Quotation.Denotes body text)
    (rest : List Char) :
    code true (body ++ '"' :: rest) = body ++ '"' :: code false rest := by
  induction hbody with
  | nil => rfl
  | plain hquote hslash hbody ih =>
      rw [List.cons_append, code_cons hquote hslash (.inl rfl), ih]
      rfl
  | feed hbody ih => exact congrArg (fun cs => '\\' :: 'n' :: cs) ih
  | tabulator hbody ih => exact congrArg (fun cs => '\\' :: 't' :: cs) ih
  | @escaped c body text hfeed htab hbody ih => exact congrArg (fun cs => '\\' :: c :: cs) ih

/-- A quotation is code to its end, whatever follows. -/
theorem code_quotation {body text : List Char} (hbody : Quotation.Denotes body text)
    (rest : List Char) :
    code false ('"' :: (body ++ ['"']) ++ rest) = '"' :: (body ++ ['"']) ++ code false rest := by
  rw [List.cons_append, List.append_assoc, List.singleton_append, code, Bool.not_false,
    code_body hbody, List.cons_append, List.append_assoc, List.singleton_append]

theorem code_of_isRemark (hcs : IsRemark cs) : code false cs = [] := by
  rcases hcs with rfl | ⟨text, rfl⟩ <;> rfl

/-- A line is its code and a remark. -/
theorem exists_remark (quoted : Bool) (cs : List Char) :
    ∃ remark, IsRemark remark ∧ cs = code quoted cs ++ remark := by
  fun_induction code quoted cs with
  | case1 => exact ⟨[], .inl rfl, rfl⟩
  | case2 => exact ⟨[], .inl rfl, rfl⟩
  | case3 quoted c cs ih =>
      obtain ⟨remark, hremark, hcs⟩ := ih
      exact ⟨remark, hremark, congrArg (fun cs => '\\' :: c :: cs) hcs⟩
  | case4 quoted cs ih =>
      obtain ⟨remark, hremark, hcs⟩ := ih
      exact ⟨remark, hremark, congrArg ('"' :: ·) hcs⟩
  | case5 cs ih =>
      obtain ⟨remark, hremark, hcs⟩ := ih
      exact ⟨remark, hremark, congrArg ('#' :: ·) hcs⟩
  | case6 quoted cs hquoted => exact ⟨'#' :: cs, .inr ⟨cs, rfl⟩, rfl⟩
  | case7 quoted c cs _ _ _ _ ih =>
      obtain ⟨remark, hremark, hcs⟩ := ih
      exact ⟨remark, hremark, congrArg (c :: ·) hcs⟩

end Comment

end Typewriter.Script
