import Typewriter.Performance.Screen
import Typewriter.Proofs.Performance.Stages

/-!
# Indicators

A frame has two signs for the reader.  The marker stands behind the text while a line is being
typed, and the sign for more stands behind a line that is shown in full.  Each of them belongs to
one of the modes of a performance, and so does what an advance would do: it completes a line that is
being typed, it takes the walk up again behind a line in full, and it does nothing during a pause
and behind the end.

There is one lemma for each of these statements, which ties it to the mode.  The main statement is
`indicators_tell_next_advance`.
-/

namespace Typewriter

/-- The marker belongs to lines that are being typed. -/
theorem Screen.display_of_phase_ne {screen : Screen} (hphase : screen.phase ≠ .typing) :
    screen.display = screen.text := by
  unfold display
  split
  · exact if_neg fun htyping => hphase htyping.1
  · rfl

namespace Performance

/-- The marker stands behind the visible text. -/
def ShowsMarker (p : Performance) (marker : String) : Prop :=
  p.screen.display = p.shown ++ marker

/-- The frame under a banner ends with the sign for more. -/
def ShowsMore (p : Performance) (banner : Option String) : Prop :=
  p.screen.frame banner =
    Screen.clearSequence ++ Screen.bannerLine banner ++ p.screen.display ++ Screen.moreSign

/-- The alarm for the next character of a line is pending. -/
def AwaitsStroke (p : Performance) : Prop :=
  ∃ alarm position, p.pending = some alarm ∧ alarm.purpose = .typeNext position

/-- The alarm of a pause is pending. -/
def AwaitsPause (p : Performance) : Prop :=
  ∃ alarm position, p.pending = some alarm ∧ alarm.purpose = .walkOn position

/-- The second performance is the first but that the line at the cursor, which was not shown in full
before, is. -/
structure Completes (p q : Performance) : Prop extends SameRecord p q where
  lineAt?_eq : p.script.lineAt? p.cursor = some q.shown
  ne : p.shown ≠ q.shown
  cursor_eq : q.cursor = p.cursor
  phase_eq : q.phase = .shown

variable {p q : Performance} {line marker : String} {alarm : Alarm} {position : Nat}

/-! ## The modes -/

theorem Typing.mode_eq (htyping : p.Typing line alarm) : p.mode = .typing := by
  unfold mode
  rw [htyping.live_eq, htyping.phase_eq]

theorem Shown.mode_eq (hshown : p.Shown line) : p.mode = .shown := by
  unfold mode
  rw [hshown.live_eq, hshown.phase_eq]

theorem Paused.mode_eq (hpaused : p.Paused position alarm) : p.mode = .paused := by
  unfold mode
  rw [hpaused.live_eq]

theorem Ended.mode_eq (hended : p.Ended) : p.mode = .ended := by
  unfold mode
  rw [hended.live_eq, hended.phase_eq]

/-- A statement that is true in one mode and in no other one tells that mode. -/
theorem Coherent.iff_mode_eq {statement : Prop} (hcoherent : p.Coherent) (mode : Mode)
    (htyping : ∀ line alarm, p.Typing line alarm → (statement ↔ Mode.typing = mode))
    (hshown : ∀ line, p.Shown line → (statement ↔ Mode.shown = mode))
    (hpaused : ∀ position alarm, p.Paused position alarm → (statement ↔ Mode.paused = mode))
    (hended : p.Ended → (statement ↔ Mode.ended = mode)) : statement ↔ p.mode = mode := by
  cases hcoherent with
  | typing line alarm h => exact h.mode_eq ▸ htyping line alarm h
  | shown line h => exact h.mode_eq ▸ hshown line h
  | paused position alarm h => exact h.mode_eq ▸ hpaused position alarm h
  | ended h => exact h.mode_eq ▸ hended h

/-! ## The signs -/

theorem showsMarker_iff (hmarker : p.setup.marker = some marker) (hne : marker ≠ "") :
    p.ShowsMarker marker ↔ p.phase = .typing ∧ p.live = true := by
  have hscreen : p.screen.marker = some marker := hmarker
  unfold ShowsMarker Screen.display
  rw [hscreen]
  show (if p.phase = .typing ∧ p.live = true then p.shown ++ marker else p.shown) = _ ↔ _
  split
  · rename_i htyping
    exact iff_of_true rfl htyping
  · rename_i htyping
    refine iff_of_false (fun hsame => hne ?_) htyping
    exact String.append_eq_left_iff.mp hsame.symm

theorem showsMore_iff (banner : Option String) :
    p.ShowsMore banner ↔ p.phase = .shown ∧ p.live = true := by
  have hmore : p.screen.hasMore = true ∧ p.screen.live = true ↔
      p.phase = .shown ∧ p.live = true :=
    and_congr_left' decide_eq_true_iff
  unfold ShowsMore Screen.frame
  rw [String.append_right_inj, ← hmore]
  split
  · rename_i hshown
    exact iff_of_true rfl hshown
  · rename_i hshown
    exact iff_of_false (by decide) hshown

theorem Coherent.showsMarker_iff_mode (hcoherent : p.Coherent)
    (hmarker : p.setup.marker = some marker) (hne : marker ≠ "") :
    p.ShowsMarker marker ↔ p.mode = .typing := by
  rw [showsMarker_iff hmarker hne]
  refine hcoherent.iff_mode_eq .typing ?_ ?_ ?_ ?_
  · intro line alarm h
    simp [h.phase_eq, h.live_eq]
  · intro line h
    simp [h.phase_eq]
  · intro position alarm h
    simp [h.live_eq]
  · intro h
    simp [h.phase_eq]

theorem Coherent.showsMore_iff_mode (hcoherent : p.Coherent) (banner : Option String) :
    p.ShowsMore banner ↔ p.mode = .shown := by
  rw [showsMore_iff banner]
  refine hcoherent.iff_mode_eq .shown ?_ ?_ ?_ ?_
  · intro line alarm h
    simp [h.phase_eq]
  · intro line h
    simp [h.phase_eq, h.live_eq]
  · intro position alarm h
    simp [h.live_eq]
  · intro h
    simp [h.phase_eq]

/-! ## The pending alarm -/

theorem Coherent.awaitsStroke_iff_mode (hcoherent : p.Coherent) :
    p.AwaitsStroke ↔ p.mode = .typing := by
  refine hcoherent.iff_mode_eq .typing ?_ ?_ ?_ ?_
  · intro line alarm h
    exact iff_of_true ⟨alarm, p.cursor, h.pending_eq, h.purpose_eq⟩ rfl
  · intro line h
    simp [AwaitsStroke, h.pending_eq]
  · intro position alarm h
    simp [AwaitsStroke, h.pending_eq, h.purpose_eq]
  · intro h
    simp [AwaitsStroke, h.pending_eq]

theorem Coherent.awaitsPause_iff_mode (hcoherent : p.Coherent) :
    p.AwaitsPause ↔ p.mode = .paused := by
  refine hcoherent.iff_mode_eq .paused ?_ ?_ ?_ ?_
  · intro line alarm h
    simp [AwaitsPause, h.pending_eq, h.purpose_eq]
  · intro line h
    simp [AwaitsPause, h.pending_eq]
  · intro position alarm h
    exact iff_of_true ⟨alarm, position + 1, h.pending_eq, h.purpose_eq⟩ rfl
  · intro h
    simp [AwaitsPause, h.pending_eq]

theorem Coherent.waits_iff_mode (hcoherent : p.Coherent) :
    p.pending = none ∧ p.phase ≠ .ended ↔ p.mode = .shown := by
  refine hcoherent.iff_mode_eq .shown ?_ ?_ ?_ ?_
  · intro line alarm h
    simp [h.pending_eq]
  · intro line h
    simp [h.pending_eq, h.phase_eq]
  · intro position alarm h
    simp [h.pending_eq]
  · intro h
    simp [h.phase_eq]

theorem Coherent.phase_eq_ended_iff_mode (hcoherent : p.Coherent) :
    p.phase = .ended ↔ p.mode = .ended := by
  refine hcoherent.iff_mode_eq .ended ?_ ?_ ?_ ?_
  · intro line alarm h
    simp [h.phase_eq]
  · intro line h
    simp [h.phase_eq]
  · intro position alarm h
    simp [h.between.phase_ne_ended]
  · intro h
    simp [h.phase_eq]

/-! ## The next advance -/

/-- Some of a line that is being typed is hidden. -/
theorem Typing.shown_ne (htyping : p.Typing line alarm) : p.shown ≠ line := by
  intro hsame
  have hlength := htyping.length_shown (Nat.le_of_lt htyping.revealed_lt)
  have hlt := htyping.revealed_lt
  rw [hsame] at hlength
  omega

theorem Typing.completes (htyping : p.Typing line alarm) : Completes p (p.showWhole line) :=
  ⟨⟨rfl, rfl, rfl, rfl, rfl⟩, htyping.lineAt?_eq, htyping.shown_ne, rfl, rfl⟩

/-- Walking on from behind the cursor moves the cursor, leaves an alarm, or comes to the end. -/
theorem Arrival.phase_eq_ended (harrival : Arrival p (p.cursor + 1) q)
    (hcursor : q.cursor = p.cursor) (hpending : q.pending = none) : q.phase = .ended := by
  cases harrival with
  | line at_ line _ hle _ hbegun =>
      have hat := hbegun.cursor_eq
      omega
  | pause _ _ _ _ _ heq =>
      rw [heq] at hpending
      contradiction
  | ending _ heq =>
      rw [heq]
      exact phase_finish _

/-- Walking on from behind the cursor does not just show a line at the cursor in full. -/
theorem walkOn_ne_of_shown (hcursor : q.cursor = p.cursor) (hpending : q.pending = none)
    (hphase : q.phase = .shown) : p.walkOn (p.cursor + 1) ≠ .ok q := by
  intro hwalk
  have hended := (arrival_of_walkOn hwalk).phase_eq_ended hcursor hpending
  rw [hphase] at hended
  contradiction

theorem Shown.advance_ne (hshown : p.Shown line) : p.advance ≠ .ok p := by
  rw [hshown.advance_eq]
  exact walkOn_ne_of_shown rfl hshown.pending_eq hshown.phase_eq

theorem Shown.not_completes (hshown : p.Shown line) : ¬ Completes p q := by
  intro hcompletes
  have hline := hcompletes.lineAt?_eq
  rw [hshown.lineAt?_eq, Option.some.injEq] at hline
  exact hcompletes.ne (hshown.shown_eq.trans hline)

theorem not_completes_self (p : Performance) : ¬ Completes p p :=
  fun hcompletes => hcompletes.ne rfl

theorem Coherent.completes_iff_mode (hcoherent : p.Coherent) :
    (∃ q, p.advance = .ok q ∧ Completes p q) ↔ p.mode = .typing := by
  refine hcoherent.iff_mode_eq .typing ?_ ?_ ?_ ?_
  · intro line alarm h
    exact iff_of_true ⟨p.showWhole line, h.advance_eq, h.completes⟩ rfl
  · intro line h
    simp [h.not_completes]
  · intro position alarm h
    simp [h.advance_eq, not_completes_self]
  · intro h
    simp [h.advance_eq, not_completes_self]

theorem Typing.advance_ne (htyping : p.Typing line alarm) : p.advance ≠ .ok p := by
  rw [htyping.advance_eq]
  intro hsame
  exact not_completes_self p (Except.ok.inj hsame ▸ htyping.completes)

theorem Coherent.walksOn_iff_mode (hcoherent : p.Coherent) :
    p.advance = p.walkOn (p.cursor + 1) ∧ p.advance ≠ .ok p ↔ p.mode = .shown := by
  refine hcoherent.iff_mode_eq .shown ?_ ?_ ?_ ?_
  · intro line alarm h
    have hne : p.walkOn (p.cursor + 1) ≠ .ok (p.showWhole line) :=
      walkOn_ne_of_shown rfl rfl rfl
    exact iff_of_false (fun hwalks => hne (hwalks.1.symm.trans h.advance_eq)) nofun
  · intro line h
    exact iff_of_true ⟨h.advance_eq, h.advance_ne⟩ rfl
  · intro position alarm h
    simp [h.advance_eq]
  · intro h
    simp [h.advance_eq]

theorem Coherent.stays_iff_mode (hcoherent : p.Coherent) :
    p.advance = .ok p ↔ p.mode = .paused ∨ p.mode = .ended := by
  cases hcoherent with
  | typing line alarm h => simp [h.mode_eq, h.advance_ne]
  | shown line h => simp [h.mode_eq, h.advance_ne]
  | paused position alarm h => simp [h.mode_eq, h.advance_eq]
  | ended h => simp [h.mode_eq, h.advance_eq]

/-- What the reader sees tells what an advance would do, under any banner.  The marker stands behind
the text exactly while the alarm for the next character is pending, and exactly then an advance
would complete the line at the cursor and do nothing else.  The sign for more ends the frame exactly
while no alarm is pending and the script has not come to its end, and exactly then an advance would
have an effect and take the walk up again behind the cursor.  Never are both of them seen.  Neither
is seen exactly where an advance would leave the performance as it is, which is during a pause and
behind the end. -/
theorem indicators_tell_next_advance {setup : Setup} {script : Script} {p₀ p : Performance}
    {operations : List Operation} {marker : String} (hmarker : setup.marker = some marker)
    (hne : marker ≠ "") (hstart : start setup script = .ok p₀)
    (hrun : p₀.run operations = .ok p) (banner : Option String) :
    (p.ShowsMarker marker ↔ p.AwaitsStroke) ∧
      (p.AwaitsStroke ↔ ∃ q, p.advance = .ok q ∧ Completes p q) ∧
      (p.ShowsMore banner ↔ p.pending = none ∧ p.phase ≠ .ended) ∧
      (p.pending = none ∧ p.phase ≠ .ended ↔
        p.advance = p.walkOn (p.cursor + 1) ∧ p.advance ≠ .ok p) ∧
      ¬ (p.ShowsMarker marker ∧ p.ShowsMore banner) ∧
      (¬ p.ShowsMarker marker ∧ ¬ p.ShowsMore banner ↔ p.advance = .ok p) ∧
      (p.advance = .ok p ↔ p.AwaitsPause ∨ p.phase = .ended) := by
  have hcoherent : p.Coherent := coherent_of_run (coherent_of_start hstart) hrun
  have hmarker' : p.setup.marker = some marker := by
    rw [(setup_script_edition_of_run hstart hrun).1]
    exact hmarker
  rw [hcoherent.showsMarker_iff_mode hmarker' hne, hcoherent.awaitsStroke_iff_mode,
    hcoherent.completes_iff_mode, hcoherent.showsMore_iff_mode banner, hcoherent.waits_iff_mode,
    hcoherent.walksOn_iff_mode, hcoherent.stays_iff_mode, hcoherent.awaitsPause_iff_mode,
    hcoherent.phase_eq_ended_iff_mode]
  refine ⟨Iff.rfl, Iff.rfl, Iff.rfl, Iff.rfl, ?_, ?_, Iff.rfl⟩
  · rintro ⟨htyping, hshown⟩
    rw [htyping] at hshown
    contradiction
  · cases p.mode <;> simp

/-- During a pause the line before it is still shown in full, but an advance would do nothing. -/
theorem indicators_tell_next_advance_of_pause :
    ∃ p₀ p, start { marker := some "_" } [.line "Hi", .pause (.ofMillis 5), .line "Ho"] = .ok p₀ ∧
      p₀.run [.advance, .advance] = .ok p ∧ p.phase = .shown ∧ ¬ p.ShowsMarker "_" ∧
      ¬ p.ShowsMore (some "alert") ∧ p.advance = .ok p := by
  have hruns : ∃ p₀ p, start { marker := some "_" }
        [.line "Hi", .pause (.ofMillis 5), .line "Ho"] = .ok p₀ ∧
      p₀.run [.advance, .advance] = .ok p ∧ p.phase = .shown ∧
      p.pending = some ⟨0, 1, .ofMillis 5, .walkOn 2⟩ :=
    ⟨_, _, rfl, rfl, rfl, rfl⟩
  obtain ⟨p₀, p, hstart, hrun, hphase, hpending⟩ := hruns
  have hne : "_" ≠ "" := by decide
  obtain ⟨-, -, -, -, -, hneither, hstays⟩ :=
    indicators_tell_next_advance rfl hne hstart hrun (some "alert")
  have hadvance : p.advance = .ok p := hstays.mpr (.inl ⟨_, 2, hpending, rfl⟩)
  obtain ⟨hno_marker, hno_more⟩ := hneither.mpr hadvance
  exact ⟨p₀, p, hstart, hrun, hphase, hno_marker, hno_more, hadvance⟩

end Performance

end Typewriter
