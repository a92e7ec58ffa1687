import Typewriter.Options.Arguments
import Typewriter.Proofs.Attempt
import Typewriter.Proofs.Tempo

/-!
# Delays from the command line

All delays on a command line are whole milliseconds of 64 bits.  Of the rests this is due to
`readRest`, whoever reads the other arguments, as long as each rest was read by it (`ReadsRests`);
`ofArguments` is such a reader.  So the interval, a rest and the random part fit into a duration
together (`nanos_add_le_maxNanos`), and no delay is too long (`fits_of_areRead`).  The jitter is
whole milliseconds too, so that its limit is the number on the command line and draws stand for just
the amounts up to it (`exists_jitterAmount_iff`).
-/

namespace Typewriter

namespace Duration

theorem wholeMillis_ofMillis (millis : UInt64) : (ofMillis millis).wholeMillis = millis.toNat :=
  Nat.mul_div_cancel _ (by decide)

theorem ofMillis_injective {a b : UInt64} (h : ofMillis a = ofMillis b) : a = b := by
  have hwhole : (ofMillis a).wholeMillis = (ofMillis b).wholeMillis := by rw [h]
  rwa [wholeMillis_ofMillis, wholeMillis_ofMillis, UInt64.toNat_inj] at hwhole

end Duration

namespace Options

/-- Each of the rests was read from a text. -/
def AreRead (rests : List (Char × Duration)) : Prop :=
  ∀ rest ∈ rests, ∃ text, readRest text = .ok rest

/-- All that the delays rely on when arguments are read: the options hold no rests but those that
`readRest` has read. -/
def ReadsRests (reader : List String → Except Refusal Options) : Prop :=
  ∀ arguments options, reader arguments = .ok options → AreRead options.rests

variable {draft draft' : Draft} {reading next : Reading} {key : Key}

theorem areRead_set {value : String} (hdraft : AreRead draft.rests)
    (hset : draft.set key value = .ok draft') : AreRead draft'.rests := by
  -- Every key but one leaves the rests alone.
  have hsame {α : Type} {old new : Option α} (fill : α → Draft)
      (hfill : ∀ value, (fill value).rests = draft.rests)
      (h : (do return fill (← Draft.once old new)) = .ok draft') : AreRead draft'.rests := by
    obtain ⟨value, -, hvalue⟩ := bind_eq_ok h
    rw [← Except.ok.inj hvalue, hfill]
    exact hdraft
  cases key with
  | script => exact hsame (fun value => { draft with script := some value }) (fun _ => rfl) hset
  | speed => exact hsame (fun value => { draft with speed := some value }) (fun _ => rfl) hset
  | delimiter =>
      exact hsame (fun value => { draft with delimiter := some value }) (fun _ => rfl) hset
  | marker => exact hsame (fun value => { draft with marker := some value }) (fun _ => rfl) hset
  | jitter => exact hsame (fun value => { draft with jitter := some value }) (fun _ => rfl) hset
  | rest =>
      unfold Draft.set at hset
      dsimp only at hset
      cases hread : readRest value with
      | error fault => simp [hread] at hset
      | ok rest =>
          simp only [hread, Except.ok.injEq] at hset
          subst hset
          intro entry hentry
          rcases List.mem_append.mp hentry with hold | hnew
          · exact hdraft entry hold
          · rw [List.mem_singleton.mp hnew]
            exact ⟨value, hread⟩

theorem areRead_settle (hreading : AreRead reading.draft.rests)
    (hsettle : reading.settle = .ok draft) : AreRead draft.rests := by
  unfold Reading.settle at hsettle
  split at hsettle
  · rw [← Except.ok.inj hsettle]
    exact hreading
  · contradiction
  · exact areRead_set hreading hsettle

theorem areRead_begin {value : Option String} (hreading : AreRead reading.draft.rests)
    (hbegin : reading.begin key value = .ok next) : AreRead next.draft.rests := by
  obtain ⟨draft, hsettle, hbegin⟩ := bind_eq_ok hbegin
  have hdraft : AreRead draft.rests := areRead_settle hreading hsettle
  cases value with
  | none =>
      rw [← Except.ok.inj hbegin]
      exact hdraft
  | some value =>
      obtain ⟨draft', hset, hdone⟩ := bind_eq_ok hbegin
      rw [← Except.ok.inj hdone]
      exact areRead_set hdraft hset

theorem stop_ne_ok (refusal : Refusal) : reading.stop refusal ≠ .ok next := by
  intro hstop
  obtain ⟨draft, -, hthrow⟩ := bind_eq_ok hstop
  contradiction

theorem areRead_read {argument : List Char} (hreading : AreRead reading.draft.rests)
    (hread : reading.read argument = .ok next) : AreRead next.draft.rests := by
  unfold Reading.read at hread
  split at hread
  · unfold Reading.readLong at hread
    dsimp only at hread
    split at hread
    · contradiction
    · exact areRead_begin hreading hread
    · exact absurd hread (stop_ne_ok _)
    · exact absurd hread (stop_ne_ok _)
    · contradiction
  · unfold Reading.readShort at hread
    split at hread
    · exact areRead_begin hreading hread
    · exact areRead_begin hreading hread
    · exact absurd hread (stop_ne_ok _)
    · exact absurd hread (stop_ne_ok _)
    · contradiction
  · unfold Reading.readValue at hread
    split at hread
    · rw [← Except.ok.inj hread]
      exact hreading
    · contradiction

theorem areRead_readAll {arguments : List (List Char)} (hreading : AreRead reading.draft.rests)
    (hread : reading.readAll arguments = .ok draft) : AreRead draft.rests := by
  fun_induction Reading.readAll reading arguments with
  | case1 reading => exact areRead_settle hreading hread
  | case2 reading rest => exact areRead_settle hreading hread
  | case3 => contradiction
  | case4 reading argument rest _ ih =>
      obtain ⟨next, hnext, hrest⟩ := bind_eq_ok hread
      exact ih next (areRead_read hreading hnext) hrest

theorem readsRests_ofArguments : ReadsRests ofArguments := by
  intro arguments options h
  obtain ⟨draft, hdraft, hoptions⟩ := bind_eq_ok h
  have hrests : AreRead draft.rests :=
    areRead_readAll (fun entry hentry => absurd hentry (List.not_mem_nil)) hdraft
  unfold Draft.toOptions at hoptions
  split at hoptions
  · contradiction
  · rw [← Except.ok.inj hoptions]
    exact hrests

theorem eq_ofMillis_of_readRest {text : String} {rest : Char × Duration}
    (h : readRest text = .ok rest) : ∃ millis : UInt64, rest.2 = .ofMillis millis := by
  unfold readRest at h
  split at h
  · contradiction
  · split at h
    · rename_i millis _
      cases h
      exact ⟨millis, rfl⟩
    · contradiction
  · contradiction

/-- The longest delay that a number of the command line stands for, in nanoseconds. -/
def longestMillis : Nat := (UInt64.size - 1) * nanosPerMilli

theorem nanos_ofMillis_le (millis : UInt64) : (Duration.ofMillis millis).nanos ≤ longestMillis := by
  have hlt := millis.toNat_lt
  simp only [Duration.nanos_ofMillis, longestMillis, nanosPerMilli, UInt64.size]
  omega

/-- The rest after a character is one of those that were given, or nothing. -/
theorem nanos_after_le {rests : List (Char × Duration)} (hrests : AreRead rests) (c : Char) :
    ((Rests.ofList rests).after c).nanos ≤ longestMillis := by
  unfold Rests.after Rests.get?
  cases hfind : (Rests.ofList rests).entries.reverse.find? fun entry => entry.1 = c with
  | none => exact Nat.zero_le _
  | some entry =>
      have hmem : entry ∈ rests := List.mem_reverse.mp (List.mem_of_find?_eq_some hfind)
      obtain ⟨text, hread⟩ := hrests entry hmem
      obtain ⟨millis, hmillis⟩ := eq_ofMillis_of_readRest hread
      show entry.2.nanos ≤ longestMillis
      rw [hmillis]
      exact nanos_ofMillis_le millis

variable {options : Options}

/-- An interval, a rest and any whole milliseconds are three numbers of the command line. -/
theorem nanos_add_le (hrests : AreRead options.rests) (c : Char) (amount : UInt64) :
    options.setup.tempo.interval.nanos + (options.setup.tempo.rests.after c).nanos +
      (Duration.ofMillis amount).nanos ≤ 3 * longestMillis := by
  have hinterval : options.setup.tempo.interval.nanos ≤ longestMillis :=
    nanos_ofMillis_le options.speed
  have hrest : (options.setup.tempo.rests.after c).nanos ≤ longestMillis :=
    nanos_after_le hrests c
  have hamount := nanos_ofMillis_le amount
  omega

/-- Together they are far from the longest duration. -/
theorem nanos_add_le_maxNanos (hrests : AreRead options.rests) (c : Char) (amount : UInt64) :
    options.setup.tempo.interval.nanos + (options.setup.tempo.rests.after c).nanos +
      (Duration.ofMillis amount).nanos ≤ maxNanos :=
  Nat.le_trans (nanos_add_le hrests c amount) (by decide)

/-- The options of a command line ask for a tempo whose delays all fit into a duration. -/
theorem fits_of_areRead (hrests : AreRead options.rests) : options.setup.tempo.Fits := by
  intro draw c isLast hnone
  obtain ⟨delay, hdelay, -⟩ :=
    Tempo.exists_delay?_of_le (nanos_add_le_maxNanos hrests c _) isLast
  rw [hnone] at hdelay
  contradiction

/-- The jitter of the options is whole milliseconds, and nothing of them is cut off. -/
theorem jitterLimit_setup (options : Options) :
    options.setup.tempo.jitterLimit = options.jitter.toNat := by
  have hwhole : options.setup.tempo.jitter.wholeMillis = options.jitter.toNat :=
    Duration.wholeMillis_ofMillis options.jitter
  rw [Tempo.jitterLimit, hwhole]
  exact Nat.mod_eq_of_lt options.jitter.toNat_lt

/-- Draws stand for all whole milliseconds up to the jitter, and for no others. -/
theorem exists_jitterAmount_iff {amount : UInt64} :
    (∃ draw, options.setup.tempo.jitterAmount draw = .ofMillis amount) ↔
      amount ≤ options.jitter := by
  rw [UInt64.le_iff_toNat_le]
  constructor
  · rintro ⟨draw, hdraw⟩
    have hle : draw % (options.jitter.toNat + 1) ≤ options.jitter.toNat :=
      Nat.le_of_lt_succ (Nat.mod_lt _ (Nat.succ_pos _))
    rw [Tempo.jitterAmount, jitterLimit_setup] at hdraw
    rw [← Duration.ofMillis_injective hdraw,
      UInt64.toNat_ofNat_of_lt' (Nat.lt_of_le_of_lt hle options.jitter.toNat_lt_size)]
    exact hle
  · intro hle
    refine ⟨amount.toNat, ?_⟩
    rw [Tempo.jitterAmount, jitterLimit_setup, Nat.mod_eq_of_lt (Nat.lt_succ_of_le hle),
      UInt64.ofNat_toNat]

end Options

end Typewriter
