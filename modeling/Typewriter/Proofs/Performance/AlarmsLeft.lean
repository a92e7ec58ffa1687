import Typewriter.Playback.Basic
import Typewriter.Proofs.Performance.Course

/-!
# How many alarms are left

Between two requests a performance goes through a pause, perhaps more pauses, and then a line, and
it never turns back.  `alarmsLeft` counts the alarms that can still ring on that way: one for the
pending pause and for each pause behind it, and one for each character of a line that is not visible
yet.  Each alarm that rings lowers it (`Coherent.alarmsLeft_lt`), and as many alarms as the script
has pauses and its longest line has characters are always enough (`Coherent.alarmsLeft_le`).
-/

namespace Typewriter

namespace Script

variable {script : Script} {position later : Nat}

/-- The number of pauses from a position on. -/
def pausesFrom (script : Script) (position : Nat) : Nat :=
  pauseCount (script.drop position)

theorem pausesFrom_eq_of_pause {length : Duration}
    (hpause : script[position]? = some (.pause length)) :
    script.pausesFrom position = script.pausesFrom (position + 1) + 1 := by
  unfold pausesFrom pauseCount
  rw [drop_eq_cons hpause]
  exact List.countP_cons_of_pos rfl

theorem pausesFrom_mono (hle : position ≤ later) :
    script.pausesFrom later ≤ script.pausesFrom position :=
  (List.drop_sublist_drop_left script hle).countP_le

theorem pausesFrom_lt_of_pause {length : Duration} (hle : position ≤ later)
    (hpause : script[later]? = some (.pause length)) :
    script.pausesFrom (later + 1) < script.pausesFrom position := by
  have hmono : script.pausesFrom later ≤ script.pausesFrom position := pausesFrom_mono hle
  rw [pausesFrom_eq_of_pause hpause] at hmono
  exact hmono

theorem le_foldl_max (lengths : List Nat) (start : Nat) :
    start ≤ lengths.foldl max start ∧ ∀ length ∈ lengths, length ≤ lengths.foldl max start := by
  induction lengths generalizing start with
  | nil => exact ⟨Nat.le_refl start, by simp⟩
  | cons length rest ih =>
      obtain ⟨hstart, hrest⟩ := ih (max start length)
      rw [List.foldl_cons]
      refine ⟨Nat.le_trans (Nat.le_max_left _ _) hstart, fun other hother => ?_⟩
      rcases List.mem_cons.mp hother with rfl | hother
      · exact Nat.le_trans (Nat.le_max_right _ _) hstart
      · exact hrest other hother

theorem length_le_longestLine {line : String} (hline : script.lineAt? position = some line) :
    line.length ≤ script.longestLine := by
  have hmem : Cue.line line ∈ script := List.mem_of_getElem? (lineAt?_eq_some_iff.mp hline)
  have hlength : line.length ∈ (script.filterMap Cue.text?).map String.length :=
    List.mem_map_of_mem (List.mem_filterMap.mpr ⟨_, hmem, rfl⟩)
  exact (le_foldl_max _ 0).2 _ hlength

end Script

namespace Performance

variable {p q : Performance} {line : String} {alarm : Alarm} {position : Nat}

/-- The most alarms that can ring one after the other, with no request in between. -/
def alarmsLeft (p : Performance) : Nat :=
  match p.pending.map Alarm.purpose with
  | none => 0
  | some (.typeNext position) => ((p.script.lineAt? position).getD "").length - p.revealed
  | some (.walkOn position) => p.script.pausesFrom position + p.script.longestLine + 1

theorem alarmsLeft_of_pending_eq_none (hpending : p.pending = none) : p.alarmsLeft = 0 := by
  unfold alarmsLeft
  rw [hpending]
  rfl

theorem Typing.alarmsLeft_eq (htyping : p.Typing line alarm) :
    p.alarmsLeft = line.length - p.revealed := by
  unfold alarmsLeft
  rw [htyping.pending_eq, Option.map_some, htyping.purpose_eq]
  simp only [htyping.lineAt?_eq, Option.getD_some]

theorem Paused.alarmsLeft_eq (hpaused : p.Paused position alarm) :
    p.alarmsLeft = p.script.pausesFrom (position + 1) + p.script.longestLine + 1 := by
  unfold alarmsLeft
  rw [hpaused.pending_eq, Option.map_some, hpaused.purpose_eq]

/-- A line on stage leaves fewer alarms than the longest line has characters, and none if it is
empty. -/
theorem OnStage.alarmsLeft_le (hstage : p.OnStage line) :
    p.alarmsLeft ≤ p.script.longestLine := by
  cases hstage with
  | typing alarm htyping =>
      have hlength := Script.length_le_longestLine htyping.lineAt?_eq
      rw [htyping.alarmsLeft_eq]
      omega
  | shown hshown =>
      rw [alarmsLeft_of_pending_eq_none hshown.pending_eq]
      exact Nat.zero_le _

/-- Walking on leaves no more alarms than there are pauses on the way and characters in a line. -/
theorem Arrival.alarmsLeft_le (hbetween : p.Between position) (harrival : Arrival p position q) :
    q.alarmsLeft ≤ p.script.pausesFrom position + p.script.longestLine := by
  have hscript : q.script = p.script := harrival.record_eq.2.1
  cases harrival with
  | line at_ line _ _ hline hbegun =>
      have hle := (hbegun.onStage rfl hline).alarmsLeft_le
      rw [hscript] at hle
      exact Nat.le_add_left_of_le hle
  | pause at_ length _ hle hpause heq =>
      have hlt := Script.pausesFrom_lt_of_pause hle hpause
      have hleft : q.alarmsLeft = p.script.pausesFrom (at_ + 1) + p.script.longestLine + 1 := by
        rw [heq]
        rfl
      rw [hleft]
      omega
  | ending _ heq =>
      have hended : q.Ended := by
        rw [heq]
        have hrecord := hbetween.of_record (p.walkFrom position) true
        exact ended_finish hrecord.phase_ne_ended rfl hrecord.revealed_eq_length
      rw [alarmsLeft_of_pending_eq_none hended.pending_eq]
      exact Nat.zero_le _

/-- Each alarm that rings is one less to come. -/
theorem Coherent.alarmsLeft_lt (hcoherent : p.Coherent) (hpending : p.pending = some alarm)
    (hring : p.ring alarm = .ok q) : q.alarmsLeft < p.alarmsLeft := by
  cases hcoherent.course_ring hring with
  | stale _ hne => exact absurd hpending hne
  | nextChar line _ _ htyping htyped =>
      have hrevealed := htyping.revealed_lt
      rw [htyping.alarmsLeft_eq]
      cases htyping.onStage_of_typed htyped with
      | typing alarm' htyping' =>
          have hmore : q.revealed = p.revealed + 1 := htyped.revealed_eq htyping'.phase_eq
          rw [htyping'.alarmsLeft_eq]
          omega
      | shown hshown =>
          rw [alarmsLeft_of_pending_eq_none hshown.pending_eq]
          omega
  | resumed position _ _ hpaused harrival =>
      have hle := harrival.alarmsLeft_le hpaused.between_resumed
      rw [hpaused.alarmsLeft_eq]
      exact Nat.lt_succ_of_le hle

/-- As many alarms are enough as the script has pauses and its longest line has characters. -/
theorem Coherent.alarmsLeft_le (hcoherent : p.Coherent) :
    p.alarmsLeft ≤ p.script.pauseCount + p.script.longestLine := by
  cases hcoherent with
  | typing line alarm htyping =>
      exact Nat.le_add_left_of_le (OnStage.typing alarm htyping).alarmsLeft_le
  | shown line hshown => exact Nat.le_add_left_of_le (OnStage.shown hshown).alarmsLeft_le
  | paused position alarm hpaused =>
      have hlt := Script.pausesFrom_lt_of_pause (Nat.zero_le position) hpaused.pause_eq
      have hall : p.script.pausesFrom 0 = p.script.pauseCount := rfl
      rw [hpaused.alarmsLeft_eq]
      omega
  | ended hended =>
      rw [alarmsLeft_of_pending_eq_none hended.pending_eq]
      exact Nat.zero_le _

/-- With an alarm pending, there is at least one left. -/
theorem Coherent.alarmsLeft_pos (hcoherent : p.Coherent) (hpending : p.pending = some alarm) :
    0 < p.alarmsLeft := by
  rcases hcoherent.typing_or_paused hpending with ⟨_, htyping⟩ | ⟨_, hpaused⟩
  · have hrevealed := htyping.revealed_lt
    rw [htyping.alarmsLeft_eq]
    omega
  · rw [hpaused.alarmsLeft_eq]
    exact Nat.succ_pos _

end Performance

end Typewriter
