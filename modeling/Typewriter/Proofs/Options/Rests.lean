import Mathlib.Data.List.Forall2
import Typewriter.Options.Arguments
import Typewriter.Proofs.Attempt
import Typewriter.Proofs.Duration.Literals

/-!
# Rests from the command line

A rest is written as a character, an equals sign and a numeral, in this order, and the last equals
sign of the text is the one that counts.  So the character may be an equals sign itself, but no
other text in front of the separator will do (`readRest_eq_ok_iff`).

A table of rests is told by what it holds for each character: the last entry for that character
(`get?_ofList`).  Between entries for different characters the order makes no difference.

Of the reader of the other arguments only `TakesAttached` is used: all that stands behind the first
equals sign of a long option is its value.  `takesAttached_ofArguments` says it of `ofArguments`, by
way of `Brings`, which says that arguments take the options from one draft to another, whatever
arguments follow.  The main statement is `rests_reach_tempo`.
-/

namespace Typewriter

namespace Rests

/-- For every character both tables hold the same. -/
def Same (rests others : Rests) : Prop :=
  ∀ c, rests.get? c = others.get? c

/-- The rests of a list, inserted one after the other. -/
def insertAll (entries : List (Char × Duration)) : Rests :=
  entries.foldl (fun rests entry => rests.insert entry.1 entry.2) {}

/-- The entries for each character are the same, in the same order. -/
def SameForEach (entries others : List (Char × Duration)) : Prop :=
  ∀ c, (entries.filter fun entry => entry.1 = c) = others.filter fun entry => entry.1 = c

variable {entries others earlier later : List (Char × Duration)} {c : Char} {rest : Duration}

/-- The last entry for a character counts. -/
theorem get?_ofList (entries : List (Char × Duration)) (c : Char) :
    (ofList entries).get? c =
      (entries.filter fun entry => entry.1 = c).getLast?.map Prod.snd := by
  rw [← List.head?_reverse, ← List.filter_reverse, List.head?_filter]
  rfl

theorem insertAll_eq_ofList (entries : List (Char × Duration)) :
    insertAll entries = ofList entries := by
  have hfold (rests : Rests) :
      entries.foldl (fun rests entry => rests.insert entry.1 entry.2) rests =
        ⟨rests.entries ++ entries⟩ := by
    induction entries generalizing rests with
    | nil => simp
    | cons entry entries ih =>
        rw [List.foldl_cons, ih]
        simp [insert]
  exact hfold {}

theorem get?_ofList_of_not_mem (hc : c ∉ entries.map Prod.fst) :
    (ofList entries).get? c = none := by
  have hnone : (entries.filter fun entry => entry.1 = c) = [] := by
    rw [List.filter_eq_nil_iff]
    intro entry hentry
    rw [decide_eq_true_eq]
    rintro rfl
    exact hc (List.mem_map_of_mem hentry)
  rw [get?_ofList, hnone]
  rfl

theorem get?_ofList_of_last (hc : c ∉ later.map Prod.fst) :
    (ofList (earlier ++ (c, rest) :: later)).get? c = some rest := by
  have hlater := get?_ofList_of_not_mem hc
  rw [get?_ofList, Option.map_eq_none_iff, List.getLast?_eq_none_iff] at hlater
  rw [get?_ofList, List.filter_append, List.filter_cons_of_pos (by simp), hlater,
    List.getLast?_concat]
  rfl

theorem same_of_sameForEach (hsame : SameForEach entries others) :
    (ofList entries).Same (ofList others) := by
  intro c
  rw [get?_ofList, get?_ofList, hsame c]

/-- Entries for different characters may be put into another order. -/
theorem sameForEach_of_perm (hperm : entries.Perm others)
    (hdistinct : (entries.map Prod.fst).Nodup) : SameForEach entries others := by
  intro c
  induction hperm with
  | nil => rfl
  | cons entry _ ih =>
      rw [List.map_cons, List.nodup_cons] at hdistinct
      rw [List.filter_cons, List.filter_cons, ih hdistinct.2]
  | swap first second entries =>
      have hne : second.1 ≠ first.1 := fun heq => by simp [heq] at hdistinct
      by_cases hfirst : first.1 = c
      · have hsecond : second.1 ≠ c := fun heq => hne (heq.trans hfirst.symm)
        simp [hfirst, hsecond]
      · simp [List.filter_cons, hfirst]
  | trans hfirst _ ih ih' =>
      exact (ih hdistinct).trans (ih' ((hfirst.map Prod.fst).nodup_iff.mp hdistinct))

end Rests

namespace Options

/-! ## Writing and reading rests -/

/-- A text writes a rest of so many milliseconds: a character, an equals sign, and a numeral with
blanks around it. -/
def WritesRest (text : String) (c : Char) (millis : UInt64) : Prop :=
  ∃ number, text.toList = c :: '=' :: number ∧ '=' ∉ number ∧
    Numeral.Denotes (Text.trim number) millis

/-- A rest as it is usually written. -/
def restText (c : Char) (millis : UInt64) : String :=
  String.ofList (c :: '=' :: Nat.toDigits 10 millis.toNat)

variable {text path : String} {c : Char} {rest : Duration} {millis : UInt64}

theorem readRest_eq_ok_iff :
    readRest text = .ok (c, rest) ↔
      ∃ millis, WritesRest text c millis ∧ rest = .ofMillis millis := by
  unfold readRest
  split
  · rename_i hnone
    rw [Text.splitLast?_eq_none_iff] at hnone
    refine iff_of_false nofun ?_
    rintro ⟨_, ⟨number, htext, -⟩, -⟩
    exact hnone (htext ▸ by simp)
  · rename_i d number hsome
    obtain ⟨htext, hnumber⟩ := Text.splitLast?_eq_some_iff.mp hsome
    constructor
    · intro hread
      split at hread
      · rename_i millis hmillis
        obtain ⟨rfl, rfl⟩ := Prod.mk.inj (Except.ok.inj hread)
        exact ⟨millis, ⟨number, htext, hnumber, Numeral.read_eq_ok_iff.mp hmillis⟩, rfl⟩
      · contradiction
    · rintro ⟨millis, ⟨other, hother, -, hdenotes⟩, rfl⟩
      -- The text starts with one character and an equals sign, so it is cut there.
      obtain ⟨rfl, htail⟩ := List.cons.inj (htext.symm.trans hother)
      obtain rfl := List.tail_eq_of_cons_eq htail
      rw [Numeral.read_eq_ok_iff.mpr hdenotes]
  · rename_i characters number hne hsome
    obtain ⟨htext, hnumber⟩ := Text.splitLast?_eq_some_iff.mp hsome
    refine iff_of_false nofun ?_
    rintro ⟨_, ⟨other, hother, hequals, -⟩, -⟩
    have hsplit : Text.splitLast? '=' text.toList = some ([c], other) :=
      Text.splitLast?_eq_some_iff.mpr ⟨hother, hequals⟩
    obtain ⟨rfl, rfl⟩ := Prod.mk.inj (Option.some.inj (hsome.symm.trans hsplit))
    exact hne c rfl

theorem writesRest_restText (c : Char) (millis : UInt64) :
    WritesRest (restText c millis) c millis := by
  have hdenotes := Numeral.denotes_toDigits millis
  refine ⟨Nat.toDigits 10 millis.toNat, String.toList_ofList, ?_, ?_⟩
  · intro hequals
    exact absurd (allDigits_toDigits millis.toNat '=' hequals) (by decide)
  · rwa [Text.trim_of_tight (Duration.tight_of_isLiteralChar fun c hc =>
      Duration.isLiteralChar_of_numeral hdenotes hc)]

/-! ## Arguments -/

/-- An argument that does not look like an option.  A lone hyphen does not. -/
def IsValue (argument : String) : Prop :=
  argument = "-" ∨ argument.toList.head? ≠ some '-'

/-- Arguments that give the path of the script, in the same argument or in one of its own. -/
inductive GivesScript (path : String) : List String → Prop where
  | attached : GivesScript path ["--script=" ++ path]
  | apart (isValue : IsValue path) : GivesScript path ["--script", path]
  | letterAttached : GivesScript path ["-s=" ++ path]
  | letterApart (isValue : IsValue path) : GivesScript path ["-s", path]

/-- Arguments that give rests, each in an argument of its own. -/
def restArguments (texts : List String) : List String :=
  texts.map ("--delay=" ++ ·)

/-- All that the rests rely on when arguments are read: in `--name=value`, the value is all that
stands behind the first equals sign.  So rests that `readRest` reads are taken up in their order,
wherever the script is named among them, and the options that were not given keep their defaults. -/
def TakesAttached (reader : List String → Except Refusal Options) : Prop :=
  ∀ {path : String} {script before after : List String} {rests : List (Char × Duration)},
    GivesScript path script →
    List.Forall₂ (fun rest text => readRest text = .ok rest) rests (before ++ after) →
    reader (restArguments before ++ script ++ restArguments after) = .ok { script := path, rests }

/-- Whatever comes behind them, arguments take the options from one draft to another. -/
def Brings (arguments : List String) (draft draft' : Draft) : Prop :=
  ∀ reading : Reading, reading.settle = .ok draft →
    ∃ next : Reading, next.settle = .ok draft' ∧ ∀ more,
      reading.readAll (arguments.map String.toList ++ more) = next.readAll more

variable {arguments others : List String} {draft draft' draft'' : Draft} {reading : Reading}

theorem Brings.nil : Brings [] draft draft :=
  fun reading hreading => ⟨reading, hreading, fun _ => rfl⟩

theorem Brings.append (hfirst : Brings arguments draft draft')
    (hrest : Brings others draft' draft'') : Brings (arguments ++ others) draft draft'' := by
  intro reading hreading
  obtain ⟨middle, hmiddle, hfirst⟩ := hfirst reading hreading
  obtain ⟨next, hnext, hrest⟩ := hrest middle hmiddle
  refine ⟨next, hnext, fun more => ?_⟩
  rw [List.map_append, List.append_assoc, hfirst, hrest]

theorem Brings.ofArguments_eq (hbrings : Brings arguments {} draft) :
    ofArguments arguments = draft.toOptions := by
  obtain ⟨next, hnext, hread⟩ := hbrings {} rfl
  have hall := hread []
  rw [List.append_nil] at hall
  rw [ofArguments, hall]
  show next.settle >>= Draft.toOptions = _
  rw [hnext]
  rfl

theorem readAll_cons {argument : List Char} (hne : argument ≠ ['-', '-'])
    (more : List (List Char)) :
    reading.readAll (argument :: more) =
      reading.read argument >>= fun next => next.readAll more := by
  rw [Reading.readAll.eq_def]
  split
  · contradiction
  · rename_i rest heq
    exact absurd (List.head_eq_of_cons_eq heq) hne
  · rename_i heq
    obtain ⟨rfl, rfl⟩ := List.cons.inj heq
    rfl

theorem IsValue.read_eq {value : String} (hvalue : IsValue value) (reading : Reading) :
    reading.read value.toList = reading.readValue value.toList ∧ value.toList ≠ ['-', '-'] := by
  rcases hvalue with rfl | hhead
  · exact ⟨rfl, by decide⟩
  · unfold Reading.read
    constructor
    · split
      · rename_i heq
        exact absurd (congrArg List.head? heq) hhead
      · rename_i heq
        exact absurd (congrArg List.head? heq) hhead
      · rfl
    · exact fun heq => hhead (congrArg List.head? heq)

/-- An option may hold its value in the same argument. -/
theorem brings_of_read_some {argument value : String} {key : Key}
    (hread : ∀ reading : Reading, reading.read argument.toList = reading.begin key (some value))
    (hne : argument.toList ≠ ['-', '-']) (hset : draft.set key value = .ok draft') :
    Brings [argument] draft draft' := by
  intro reading hreading
  have hbegin : reading.begin key (some value) = .ok ⟨draft', none⟩ := by
    unfold Reading.begin
    rw [hreading]
    show draft.set key value >>= _ = _
    rw [hset]
    rfl
  refine ⟨⟨draft', none⟩, rfl, fun more => ?_⟩
  rw [List.map_singleton, List.singleton_append, readAll_cons hne, hread, hbegin]
  rfl

/-- The value of an option may be the next argument, which is settled later. -/
theorem brings_of_read_none {argument value : String} {key : Key}
    (hread : ∀ reading : Reading, reading.read argument.toList = reading.begin key none)
    (hne : argument.toList ≠ ['-', '-']) (hvalue : IsValue value)
    (hset : draft.set key value = .ok draft') : Brings [argument, value] draft draft' := by
  intro reading hreading
  have hbegin : reading.begin key none = .ok ⟨draft, some ⟨key, none⟩⟩ := by
    unfold Reading.begin
    rw [hreading]
    rfl
  obtain ⟨hnext, hvalue_ne⟩ := hvalue.read_eq ⟨draft, some ⟨key, none⟩⟩
  have hapart : Reading.read ⟨draft, some ⟨key, none⟩⟩ value.toList =
      .ok ⟨draft, some ⟨key, some value⟩⟩ := by
    rw [hnext, Reading.readValue, String.ofList_toList]
  refine ⟨⟨draft, some ⟨key, some value⟩⟩, hset, fun more => ?_⟩
  rw [List.map_cons, List.map_singleton, List.cons_append, List.singleton_append,
    readAll_cons hne, hread, hbegin]
  show Reading.readAll _ (value.toList :: more) = _
  rw [readAll_cons hvalue_ne, hapart]
  rfl

/-- All that stands behind the first equals sign of a long option is its value. -/
theorem brings_attached {name : List Char} {argument value : String} {key : Key}
    (hargument : argument.toList = '-' :: '-' :: (name ++ '=' :: value.toList))
    (hname : '=' ∉ name) (hkey : longName? (String.ofList name) = some (.key key))
    (hset : draft.set key value = .ok draft') : Brings [argument] draft draft' := by
  have hsplit : Text.splitFirst? '=' (name ++ '=' :: value.toList) = some (name, value.toList) :=
    Text.splitFirst?_eq_some_iff.mpr ⟨rfl, hname⟩
  refine brings_of_read_some (fun reading => ?_) ?_ hset
  · rw [hargument]
    show reading.readLong (name ++ '=' :: value.toList) = _
    unfold Reading.readLong
    rw [hsplit]
    simp only [hkey, String.ofList_toList]
  · simp [hargument]

/-- A rest is added behind the earlier ones. -/
theorem brings_rest {rest : Char × Duration} (hread : readRest text = .ok rest) :
    Brings ["--delay=" ++ text] draft { draft with rests := draft.rests ++ [rest] } := by
  have hset : draft.set .rest text = .ok { draft with rests := draft.rests ++ [rest] } := by
    unfold Draft.set
    rw [hread]
  have hargument : ("--delay=" ++ text).toList =
      '-' :: '-' :: ("delay".toList ++ '=' :: text.toList) := by
    rw [String.toList_append]
    rfl
  exact brings_attached hargument (by decide) rfl hset

theorem brings_rests {texts : List String} {rests : List (Char × Duration)}
    (hread : List.Forall₂ (fun rest text => readRest text = .ok rest) rests texts)
    (draft : Draft) :
    Brings (restArguments texts) draft { draft with rests := draft.rests ++ rests } := by
  induction hread generalizing draft with
  | nil =>
      rw [List.append_nil]
      exact .nil
  | @cons rest text rests texts hread _ ih =>
      have hfirst : Brings ["--delay=" ++ text] draft _ := brings_rest hread
      have hall := hfirst.append (ih _)
      simp only [List.append_assoc] at hall
      exact hall

theorem GivesScript.brings (hscript : GivesScript path arguments) (hnone : draft.script = none) :
    Brings arguments draft { draft with script := some path } := by
  have hset : draft.set .script path = .ok { draft with script := some path } := by
    unfold Draft.set
    rw [hnone]
    rfl
  cases hscript with
  | attached =>
      have hargument : ("--script=" ++ path).toList =
          '-' :: '-' :: ("script".toList ++ '=' :: path.toList) := by
        rw [String.toList_append]
        rfl
      exact brings_attached hargument (by decide) rfl hset
  | apart hvalue => exact brings_of_read_none (fun _ => rfl) (by decide) hvalue hset
  | letterAttached =>
      refine brings_of_read_some (fun reading => ?_) ?_ hset
      · rw [String.toList_append]
        show reading.begin .script (some (String.ofList path.toList)) = _
        rw [String.ofList_toList]
      · rw [String.toList_append]
        simp
  | letterApart hvalue => exact brings_of_read_none (fun _ => rfl) (by decide) hvalue hset

theorem takesAttached_ofArguments : TakesAttached ofArguments := by
  intro path script before after rests hscript hread
  have hbefore := brings_rests (List.forall₂_take_append rests before after hread) {}
  have hafter := brings_rests (List.forall₂_drop_append rests before after hread)
  have hboth := (hbefore.append (hscript.brings rfl)).append (hafter _)
  rw [hboth.ofArguments_eq]
  simp only [List.nil_append, List.take_append_drop]
  rfl

/-- The entries of a table for rests that are given in milliseconds. -/
def entries (pairs : List (Char × UInt64)) : List (Char × Duration) :=
  pairs.map fun pair => (pair.1, .ofMillis pair.2)

/-- Texts that write rests are read as the entries for them. -/
theorem forall₂_readRest {texts : List String} {pairs : List (Char × UInt64)}
    (hwrites : List.Forall₂ (fun pair text => WritesRest text pair.1 pair.2) pairs texts) :
    List.Forall₂ (fun rest text => readRest text = .ok rest) (entries pairs) texts := by
  induction hwrites with
  | nil => exact .nil
  | cons hwrites _ ih => exact .cons (readRest_eq_ok_iff.mpr ⟨_, hwrites, rfl⟩) ih

/-- A text is a rest if it is a character, an equals sign and a numeral without another equals sign,
between blanks or not.  Rests on a command line, wherever the script is named among them and whoever
reads the arguments, set the table of the tempo: the last one for a character counts, and other
characters earn no rest.  It makes no difference whether a table is made of a list or by insertions,
nor in what order entries for different characters come. -/
theorem rests_reach_tempo :
    (∀ text c rest, readRest text = .ok (c, rest) ↔
        ∃ millis, WritesRest text c millis ∧ rest = .ofMillis millis) ∧
      (∀ c millis, WritesRest (restText c millis) c millis) ∧
      TakesAttached ofArguments ∧
      (∀ {reader : List String → Except Refusal Options}, TakesAttached reader →
        ∀ {path : String} {script before after : List String} {pairs : List (Char × UInt64)},
        GivesScript path script →
        List.Forall₂ (fun pair text => WritesRest text pair.1 pair.2) pairs (before ++ after) →
        ∃ options,
          reader (restArguments before ++ script ++ restArguments after) = .ok options ∧
          options = { script := path, rests := entries pairs } ∧
          (∀ earlier c millis later, pairs = earlier ++ (c, millis) :: later →
            c ∉ later.map Prod.fst → options.setup.tempo.rests.after c = .ofMillis millis) ∧
          (∀ c, c ∉ pairs.map Prod.fst → options.setup.tempo.rests.after c = 0) ∧
          (options.setup.tempo.rests.isEmpty = true ↔ pairs = [])) ∧
      (∀ list others, Rests.SameForEach list others →
        (Rests.insertAll list).Same (.ofList others)) ∧
      ∀ list others : List (Char × Duration), list.Perm others → (list.map Prod.fst).Nodup →
        Rests.SameForEach list others := by
  refine ⟨fun text c rest => readRest_eq_ok_iff, writesRest_restText, takesAttached_ofArguments,
    ?_, ?_, ?_⟩
  · intro reader hreader path script before after pairs hscript hwrites
    have hkeys (list : List (Char × UInt64)) :
        (entries list).map Prod.fst = list.map Prod.fst := by
      simp [entries]
    refine ⟨_, hreader hscript (forall₂_readRest hwrites), rfl, ?_, ?_, ?_⟩
    · intro earlier c millis later hpairs hlater
      have hentries : entries pairs =
          entries earlier ++ (c, .ofMillis millis) :: entries later := by
        rw [hpairs, entries, List.map_append, List.map_cons]
        rfl
      show ((Rests.ofList (entries pairs)).get? c).getD 0 = _
      rw [hentries, Rests.get?_ofList_of_last (hkeys later ▸ hlater)]
      rfl
    · intro c hc
      show ((Rests.ofList (entries pairs)).get? c).getD 0 = _
      rw [Rests.get?_ofList_of_not_mem (hkeys pairs ▸ hc)]
      rfl
    · exact List.isEmpty_iff.trans List.map_eq_nil_iff
  · intro list others hsame
    rw [Rests.insertAll_eq_ofList]
    exact Rests.same_of_sameForEach hsame
  · intro list others hperm hdistinct
    exact Rests.sameForEach_of_perm hperm hdistinct

/-- A rest after the equals sign itself, and two after a full stop around the script, of which the
second is written with a plus sign and blanks. -/
theorem rests_reach_tempo_of_equals_sign :
    WritesRest "==50" '=' 50 ∧ WritesRest ".=1" '.' 1 ∧ WritesRest ".= +300\t" '.' 300 ∧
      (∃ options,
        ofArguments ["--delay===50", "--delay=.=1", "--script", "a.script", "--delay=.= +300\t"] =
          .ok options ∧
        options.setup.tempo.rests.after '=' = .ofMillis 50 ∧
        options.setup.tempo.rests.after '.' = .ofMillis 300 ∧
        options.setup.tempo.rests.after ',' = 0) ∧
      (Rests.insertAll (entries [('=', 50), ('.', 300)])).Same
        (.ofList (entries [('.', 300), ('=', 50)])) := by
  obtain ⟨-, -, htakes, hreach, hsame, horder⟩ := rests_reach_tempo
  have hequals : WritesRest "==50" '=' 50 :=
    ⟨['5', '0'], rfl, by decide, Numeral.read_eq_ok_iff.mp rfl⟩
  have hfirst : WritesRest ".=1" '.' 1 := ⟨['1'], rfl, by decide, Numeral.read_eq_ok_iff.mp rfl⟩
  have hsecond : WritesRest ".= +300\t" '.' 300 :=
    ⟨[' ', '+', '3', '0', '0', '\t'], rfl, by decide, Numeral.read_eq_ok_iff.mp rfl⟩
  obtain ⟨options, hoptions, -, hlast, hnone, -⟩ :=
    @hreach _ htakes "a.script" _ ["==50", ".=1"] [".= +300\t"]
      [('=', 50), ('.', 1), ('.', 300)] (.apart (.inr (by decide)))
      (.cons hequals (.cons hfirst (.cons hsecond .nil)))
  refine ⟨hequals, hfirst, hsecond, ⟨options, hoptions, ?_, ?_, ?_⟩, ?_⟩
  · exact hlast [] '=' 50 [('.', 1), ('.', 300)] rfl (by decide)
  · exact hlast [('=', 50), ('.', 1)] '.' 300 [] rfl (by decide)
  · exact hnone ',' (by decide)
  · exact hsame _ _ (horder _ _ (.swap _ _ []) (by decide))

end Options

end Typewriter
