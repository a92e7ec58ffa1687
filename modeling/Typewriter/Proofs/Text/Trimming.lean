import Mathlib.Data.List.Basic
import Mathlib.Data.List.TakeWhile
import Typewriter.Text.Blank

/-!
# Trimming

A text is tight if it neither starts nor ends with a blank.  Trimming takes the blanks off the two
ends of a text and leaves a tight one (`tight_trim`), and of a tight text between blanks it leaves
just that (`trim_between_blanks`).
-/

namespace Typewriter.Text

/-- All characters are blanks. -/
def AllBlank (cs : List Char) : Prop := ∀ c ∈ cs, isBlank c = true

instance : DecidablePred AllBlank := fun cs =>
  decidable_of_iff (cs.all isBlank = true) List.all_eq_true

/-- No blank stands at either end. -/
structure Tight (cs : List Char) : Prop where
  head : ∀ c, cs.head? = some c → isBlank c = false
  last : ∀ c, cs.getLast? = some c → isBlank c = false

variable {cs lead core tail : List Char}

theorem AllBlank.nil : AllBlank [] := by simp [AllBlank]

theorem AllBlank.append (hlead : AllBlank lead) (htail : AllBlank tail) :
    AllBlank (lead ++ tail) := by
  intro c hc
  rcases List.mem_append.mp hc with hc | hc
  · exact hlead c hc
  · exact htail c hc

theorem trimStart_eq_nil_iff : trimStart cs = [] ↔ AllBlank cs :=
  List.dropWhile_eq_nil_iff

theorem trimStart_append_of_allBlank (hlead : AllBlank lead) (rest : List Char) :
    trimStart (lead ++ rest) = trimStart rest := by
  induction lead with
  | nil => rfl
  | cons c lead ih =>
      have hc : isBlank c = true := hlead c List.mem_cons_self
      have hrest : AllBlank lead := fun d hd => hlead d (List.mem_cons_of_mem _ hd)
      rw [List.cons_append, trimStart, List.dropWhile_cons_of_pos hc]
      exact ih hrest

theorem trimStart_of_head (hhead : ∀ c, cs.head? = some c → isBlank c = false) :
    trimStart cs = cs := by
  cases cs with
  | nil => rfl
  | cons c cs => exact List.dropWhile_cons_of_neg (by simp [hhead c rfl])

theorem trimEnd_eq_reverse (cs : List Char) : trimEnd cs = (trimStart cs.reverse).reverse := rfl

theorem trimEnd_append_of_allBlank (htail : AllBlank tail) (rest : List Char) :
    trimEnd (rest ++ tail) = trimEnd rest := by
  have htail' : AllBlank tail.reverse := fun c hc => htail c (List.mem_reverse.mp hc)
  rw [trimEnd_eq_reverse, List.reverse_append, trimStart_append_of_allBlank htail',
    ← trimEnd_eq_reverse]

theorem trimEnd_of_last (hlast : ∀ c, cs.getLast? = some c → isBlank c = false) :
    trimEnd cs = cs := by
  have hhead : ∀ c, cs.reverse.head? = some c → isBlank c = false := by
    intro c hc
    rw [List.head?_reverse] at hc
    exact hlast c hc
  rw [trimEnd_eq_reverse, trimStart_of_head hhead, List.reverse_reverse]

/-- Between blanks, a tight text is what trimming leaves. -/
theorem trim_between_blanks (hlead : AllBlank lead) (htail : AllBlank tail) (hcore : Tight core) :
    trim (lead ++ core ++ tail) = core := by
  cases core with
  | nil =>
      have hblank : AllBlank (lead ++ [] ++ tail) := by
        rw [List.append_nil]
        exact hlead.append htail
      rw [trim, trimStart_eq_nil_iff.mpr hblank]
      rfl
  | cons c core =>
      have hstart : trimStart (c :: core ++ tail) = c :: core ++ tail :=
        trimStart_of_head fun d hd => hcore.head d hd
      rw [trim, List.append_assoc, trimStart_append_of_allBlank hlead, hstart,
        trimEnd_append_of_allBlank htail, trimEnd_of_last hcore.last]

theorem trim_append_of_allBlank (htail : AllBlank tail) (hcore : Tight core) :
    trim (core ++ tail) = core :=
  trim_between_blanks AllBlank.nil htail hcore

theorem trim_of_tight (hcore : Tight core) : trim core = core := by
  have htrim := trim_append_of_allBlank AllBlank.nil hcore
  rwa [List.append_nil] at htrim

theorem tight_trim (cs : List Char) : Tight (trim cs) := by
  have hstart : ∀ c, (trimStart cs).head? = some c → isBlank c = false := by
    intro c hc
    have hnot := List.head?_dropWhile_not isBlank cs
    rw [show cs.dropWhile isBlank = trimStart cs from rfl, hc] at hnot
    simpa using hnot
  constructor
  · intro c hc
    obtain ⟨tail, htail, -⟩ := trimEnd_append_blanks (trimStart cs)
    refine hstart c ?_
    rw [← htail, List.head?_append, show trimEnd (trimStart cs) = trim cs from rfl, hc]
    rfl
  · intro c hc
    have hnot := List.head?_dropWhile_not isBlank (trimStart cs).reverse
    rw [trim, trimEnd_eq_reverse, List.getLast?_reverse] at hc
    rw [show (trimStart cs).reverse.dropWhile isBlank = trimStart (trimStart cs).reverse from rfl,
      hc] at hnot
    simpa using hnot

/-- A text that starts with no blank has no blanks but behind it. -/
theorem exists_blanks_of_head (hhead : ∀ c, cs.head? = some c → isBlank c = false) :
    ∃ blanks, AllBlank blanks ∧ cs = trim cs ++ blanks := by
  obtain ⟨blanks, happ, hblanks⟩ := trimEnd_append_blanks cs
  refine ⟨blanks, List.all_eq_true.mp hblanks, ?_⟩
  rw [trim, trimStart_of_head hhead, happ]

theorem exists_blanks_of_tight_append {rest : List Char} (htight : Tight (cs ++ rest)) :
    ∃ blanks, AllBlank blanks ∧ cs = trim cs ++ blanks := by
  refine exists_blanks_of_head fun c hc => htight.head c ?_
  rw [List.head?_append, hc]
  rfl

/-- A text that ends a tight one has no blanks but in front of it. -/
theorem exists_blanks_of_append_tight {front : List Char} (htight : Tight (front ++ cs)) :
    ∃ blanks, AllBlank blanks ∧ cs = blanks ++ trim cs := by
  obtain ⟨blanks, happ, hblanks⟩ := trimStart_append_blanks cs
  refine ⟨blanks, List.all_eq_true.mp hblanks, ?_⟩
  have hend : trimEnd (trimStart cs) = trimStart cs := by
    refine trimEnd_of_last fun c hc => htight.last c ?_
    rw [← happ, ← List.append_assoc, List.getLast?_append, hc]
    rfl
  rw [trim, hend, happ]

theorem tight_of_all (hcs : cs.all (!isBlank ·) = true) : Tight cs := by
  have hblank : ∀ c ∈ cs, isBlank c = false := fun c hc =>
    (Bool.not_eq_true' _).mp (List.all_eq_true.mp hcs c hc)
  exact ⟨fun c hc => hblank c (List.mem_of_head? hc),
    fun c hc => hblank c (List.mem_of_getLast? hc)⟩

/-- Whatever stands between two tight texts, the whole is tight. -/
theorem Tight.around {first last : List Char} (hfirst : Tight first) (hlast : Tight last)
    (hfirst_ne : first ≠ []) (hlast_ne : last ≠ []) (mid : List Char) :
    Tight (first ++ mid ++ last) := by
  constructor
  · intro c hc
    rw [List.append_assoc, List.head?_append_of_ne_nil _ hfirst_ne] at hc
    exact hfirst.head c hc
  · intro c hc
    rw [List.getLast?_append_of_ne_nil _ hlast_ne] at hc
    exact hlast.last c hc

theorem trim_eq_nil_iff : trim cs = [] ↔ AllBlank cs := by
  constructor
  · intro hnil
    obtain ⟨lead, tail, happ, hlead, htail⟩ := trim_append_blanks cs
    rw [hnil, List.append_nil] at happ
    rw [← happ]
    exact AllBlank.append (List.all_eq_true.mp hlead) (List.all_eq_true.mp htail)
  · intro hblank
    rw [trim, trimStart_eq_nil_iff.mpr hblank]
    rfl

end Typewriter.Text
