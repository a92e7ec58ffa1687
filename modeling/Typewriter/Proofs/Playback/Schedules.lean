import Typewriter.Playback.History
import Typewriter.Proofs.Attempt
import Typewriter.Proofs.Playback.Player

/-!
# Playbacks are players

A `Playback` is one of the ways in which a player can go about its work: it takes requests at once
and rings alarms at the first millisecond that is not before their deadlines.  There is one lemma
for each function of it, and `History.exists_plays_of_steps` puts them together: until it is
stopped, a playback is always a player to which something has happened, so all that holds of
players holds of it.
-/

namespace Typewriter

namespace Playback

/-- The player that a playback is between two calls, when no request is left. -/
def toPlayer (b : Playback) : Player where
  performance := b.performance
  now := b.now * nanosPerMilli
  armed := b.armed
  published := b.published
  looking := false

/-- Whatever happened to the first player, more can happen and make it the second. -/
def Leads (b next : Player) : Prop :=
  ∀ setup script history, Player.Plays setup script history b →
    ∃ more, Player.Plays setup script (history ++ more) next

variable {b next : Playback} {armed : Armed} {time limit : Nat} {setup : Setup}
  {script : Script} {origin : Nat}

theorem Leads.refl (b : Player) : Leads b b := by
  intro setup script history hplays
  exact ⟨[], (List.append_nil history).symm ▸ hplays⟩

theorem Leads.trans {b next last : Player} (hnext : Leads b next) (hlast : Leads next last) :
    Leads b last := by
  intro setup script history hplays
  obtain ⟨more, hmore⟩ := hnext setup script history hplays
  obtain ⟨rest, hrest⟩ := hlast setup script _ hmore
  exact ⟨more ++ rest, List.append_assoc history more rest ▸ hrest⟩

theorem leads_of_step {b next : Player} {occurrence : Player.Occurrence}
    (hstep : Player.Step b occurrence next) : Leads b next :=
  fun _ _ _ hplays => ⟨[occurrence], hplays.step hstep⟩

/-! ## One function at a time -/

theorem publish_eq (b : Playback) :
    b.publish.performance = b.performance ∧ b.publish.now = b.now ∧
      b.publish.armed = b.armed ∧ b.publish.published = b.performance.screen := by
  unfold publish
  dsimp only
  split
  · exact ⟨rfl, rfl, rfl, Eq.symm ‹_›⟩
  · exact ⟨rfl, rfl, rfl, rfl⟩

/-- Unless the clock comes to its end, arming is the same for a playback and for a player. -/
theorem eq_of_arm (harm : b.arm = .ok next) :
    next = { b with armed := b.toPlayer.rearmed } := by
  have hplayer : b.toPlayer.performance.pending = b.performance.pending := rfl
  unfold arm at harm
  unfold Player.rearmed
  rw [hplayer]
  cases hpending : b.performance.pending with
  | none =>
      simp only [hpending] at harm
      exact (Except.ok.inj harm).symm
  | some alarm =>
      simp only [hpending] at harm
      cases harmed : b.armed with
      | none =>
          simp only [harmed, Option.map_none, reduceCtorEq, if_false] at harm
          split at harm
          · rw [← Except.ok.inj harm]
            simp [toPlayer, harmed]
          · contradiction
      | some armed =>
          simp only [harmed, Option.map_some, Option.some.injEq] at harm
          by_cases hsame : armed.alarm = alarm
          · rw [if_pos hsame] at harm
            simp only [toPlayer, harmed, hsame, if_true, Option.map_some]
            rw [← Except.ok.inj harm, ← harmed]
          · rw [if_neg hsame] at harm
            split at harm
            · rw [← Except.ok.inj harm]
              simp [toPlayer, harmed, hsame]
            · contradiction

/-- Going on with a performance is a look at it. -/
theorem toPlayer_continueWith {p : Performance} (hnext : b.continueWith (.ok p) = .ok next) :
    next.toPlayer = { b.toPlayer with performance := p, looking := true }.look := by
  obtain ⟨hperformance, hnow, harmed, hpublished⟩ := publish_eq { b with performance := p }
  rw [eq_of_arm hnext]
  unfold Player.look Player.rearmed toPlayer
  simp only [hperformance, hnow, harmed, hpublished]

theorem exists_of_continueWith {result : Except Performance.Fault Performance}
    (hnext : b.continueWith result = .ok next) : ∃ p, result = .ok p := by
  cases result with
  | ok p => exact ⟨p, rfl⟩
  | error fault => contradiction

theorem Armed.deadline_le_of_due_le (hdue : armed.due ≤ time) :
    armed.deadline ≤ time * nanosPerMilli := by
  simp only [Armed.due, nanosPerMilli] at hdue ⊢
  omega

/-- The clock of a waiting player may move on. -/
theorem leads_of_le (hle : b.now ≤ time) : Leads b.toPlayer { b with now := time }.toPlayer := by
  have hnow : b.now * nanosPerMilli + (time - b.now) * nanosPerMilli = time * nanosPerMilli := by
    rw [← Nat.add_mul, Nat.add_sub_cancel' hle]
  have hstep := leads_of_step (Player.Step.pass (b := b.toPlayer) ((time - b.now) * nanosPerMilli))
  simp only [toPlayer, hnow] at hstep
  exact hstep

theorem leads_of_ringAt (harmed : b.armed = some armed) (hle : b.now ≤ time)
    (hdue : armed.due ≤ time) (hnext : b.ringAt time armed = .ok next) :
    Leads b.toPlayer next.toPlayer ∧ next.now = time := by
  unfold ringAt at hnext
  obtain ⟨p, hring⟩ := exists_of_continueWith hnext
  rw [hring] at hnext
  have hrung := Player.Step.ring (b := { b with now := time }.toPlayer) armed p rfl harmed
    (Armed.deadline_le_of_due_le hdue) hring
  have hlooked := leads_of_step (Player.Step.look
    (b := { { b with now := time }.toPlayer with performance := p, armed := none, looking := true })
    rfl)
  refine ⟨(leads_of_le hle).trans ((leads_of_step hrung).trans ?_), ?_⟩
  · rw [toPlayer_continueWith hnext]
    exact hlooked
  · rw [eq_of_arm hnext]
    exact (publish_eq _).2.1

theorem leads_of_ringDue (hle : b.now ≤ time) (hnext : b.ringDue limit time = .ok next) :
    Leads b.toPlayer next.toPlayer ∧ next.now ≤ time := by
  induction limit generalizing b with
  | zero =>
      unfold ringDue at hnext
      rw [← Except.ok.inj hnext]
      exact ⟨.refl _, hle⟩
  | succ limit ih =>
      unfold ringDue at hnext
      cases harmed : b.armed with
      | none =>
          simp only [harmed] at hnext
          rw [← Except.ok.inj hnext]
          exact ⟨.refl _, hle⟩
      | some armed =>
          simp only [harmed] at hnext
          by_cases hdue : armed.due ≤ time
          · rw [if_pos hdue] at hnext
            cases hring : b.ringAt (max b.now armed.due) armed with
            | error fault => simp [hring] at hnext
            | ok rung =>
                simp only [hring] at hnext
                obtain ⟨hleads, hnow⟩ :=
                  leads_of_ringAt harmed (Nat.le_max_left _ _) (Nat.le_max_right _ _) hring
                obtain ⟨hrest, hlast⟩ := ih (hnow ▸ Nat.max_le.mpr ⟨hle, hdue⟩) hnext
                exact ⟨hleads.trans hrest, hlast⟩
          · rw [if_neg hdue] at hnext
            rw [← Except.ok.inj hnext]
            exact ⟨.refl _, hle⟩

theorem leads_of_sleep {millis : Nat} (hnext : b.sleep millis = .ok next) :
    Leads b.toPlayer next.toPlayer := by
  unfold sleep runUntil at hnext
  cases hring : b.ringDue b.alarmLimit (b.now + millis) with
  | error fault => simp [hring] at hnext
  | ok rung =>
      simp only [hring, Except.ok.injEq] at hnext
      obtain ⟨hleads, hnow⟩ := leads_of_ringDue (Nat.le_add_right _ _) hring
      rw [← hnext]
      exact hleads.trans (leads_of_le hnow)

/-- A request is an operation, a look at what has become of the performance, and no time. -/
theorem exists_of_request {request : Request} (hnext : b.request request = .ok next) :
    ∃ went p, b.performance.apply request.operation = .ok p ∧
      b.continueWith (.ok p) = .ok went ∧ went.sleep 0 = .ok next := by
  unfold Playback.request at hnext
  cases hwent : b.continueWith (b.performance.apply request.operation) with
  | error fault => simp [hwent] at hnext
  | ok went =>
      simp only [hwent] at hnext
      obtain ⟨p, happly⟩ := exists_of_continueWith hwent
      rw [happly] at hwent
      exact ⟨went, p, happly, hwent, hnext⟩

theorem leads_of_request {request : Request} (hnext : b.request request = .ok next) :
    Leads b.toPlayer next.toPlayer := by
  obtain ⟨went, p, happly, hwent, hslept⟩ := exists_of_request hnext
  have hsent := Player.Step.send (b := b.toPlayer) request
  have hreceived := Player.Step.receive (b := { b.toPlayer with queue := [request] })
    request [] p rfl rfl happly
  have hlooked := Player.Step.look
    (b := { b.toPlayer with performance := p, looking := true }) rfl
  rw [← toPlayer_continueWith hwent] at hlooked
  exact (leads_of_step hsent).trans ((leads_of_step hreceived).trans
    ((leads_of_step hlooked).trans (leads_of_sleep hslept)))

/-- A start is a start of the performance, a first look at it, and no time. -/
theorem exists_of_start (hstart : start setup script origin = .ok b) :
    ∃ p armed, Performance.start setup script = .ok p ∧
      (opening p origin).arm = .ok armed ∧ armed.sleep 0 = .ok b := by
  unfold start at hstart
  cases hperformance : Performance.start setup script with
  | error fault => simp [hperformance] at hstart
  | ok p =>
      simp only [hperformance] at hstart
      cases harm : (opening p origin).arm with
      | error fault => simp [harm] at hstart
      | ok armed =>
          simp only [harm] at hstart
          exact ⟨p, armed, rfl, harm, hstart⟩

theorem exists_plays_of_start (hstart : start setup script origin = .ok b) :
    ∃ history, Player.Plays setup script history b.toPlayer := by
  obtain ⟨p, armed, hperformance, harm, hslept⟩ := exists_of_start hstart
  have hlooked := (Player.Plays.opening hperformance).step (.look rfl)
  have heq : armed.toPlayer = (Player.opening p).look := by
    rw [eq_of_arm harm]
    simp [toPlayer, opening, Player.look, Player.opening, Player.rearmed]
  rw [← heq] at hlooked
  obtain ⟨more, hmore⟩ := leads_of_sleep hslept _ _ _ hlooked
  exact ⟨_, hmore⟩

/-! ## The origin of the clock -/

theorem origin_publish (b : Playback) : b.publish.origin = b.origin := by
  unfold publish
  dsimp only
  split
  · rfl
  · rfl

theorem clock_publish (b : Playback) : b.publish.clock = b.clock := by
  rw [clock, origin_publish, (publish_eq b).2.1]
  rfl

theorem origin_of_continueWith {result : Except Performance.Fault Performance}
    (hnext : b.continueWith result = .ok next) : next.origin = b.origin := by
  obtain ⟨p, rfl⟩ := exists_of_continueWith hnext
  rw [eq_of_arm hnext]
  exact origin_publish _

theorem origin_of_ringAt (hnext : b.ringAt time armed = .ok next) : next.origin = b.origin :=
  origin_of_continueWith (b := { b with now := time, armed := none }) hnext

theorem origin_of_ringDue (hnext : b.ringDue limit time = .ok next) : next.origin = b.origin := by
  fun_induction ringDue limit b time with
  | case1 limit b armed _ _ rung hring ih => exact (ih hnext).trans (origin_of_ringAt hring)
  | case2 => contradiction
  | case3 => exact congrArg origin (Except.ok.inj hnext).symm
  | case4 => exact congrArg origin (Except.ok.inj hnext).symm

theorem origin_of_runUntil (hnext : b.runUntil time = .ok next) : next.origin = b.origin := by
  unfold runUntil at hnext
  cases hring : b.ringDue b.alarmLimit time with
  | error fault => simp [hring] at hnext
  | ok rung =>
      simp only [hring, Except.ok.injEq] at hnext
      have hrung := origin_of_ringDue hring
      rw [← hnext]
      exact hrung

theorem origin_of_request {request : Request} (hnext : b.request request = .ok next) :
    next.origin = b.origin := by
  obtain ⟨went, p, -, hwent, hslept⟩ := exists_of_request hnext
  exact (origin_of_runUntil hslept).trans (origin_of_continueWith hwent)

theorem origin_of_start (hstart : start setup script origin = .ok b) : b.origin = origin := by
  obtain ⟨p, armed, -, harm, hslept⟩ := exists_of_start hstart
  rw [origin_of_runUntil hslept, eq_of_arm harm]
  rfl

/-! ## Histories -/

/-- Nothing takes a stop back, and what is done without one leads on. -/
theorem History.leads_of_perform {history later : History} {step : Step} {refused : Bool}
    (hperform : history.perform step = .ok (later, refused)) (hstopped : later.stopped = false) :
    history.stopped = false ∧ Leads history.playback.toPlayer later.playback.toPlayer := by
  unfold perform at hperform
  cases step with
  | request request =>
      dsimp only at hperform
      by_cases hbefore : history.stopped = true
      · rw [if_pos hbefore] at hperform
        obtain ⟨rfl, -⟩ := Prod.mk.inj (Except.ok.inj hperform)
        exact absurd (hbefore.symm.trans hstopped) (by decide)
      · rw [if_neg hbefore] at hperform
        obtain ⟨b, hrequest, hdone⟩ := bind_eq_ok hperform
        obtain ⟨rfl, -⟩ := Prod.mk.inj (Except.ok.inj hdone)
        exact ⟨hstopped, leads_of_request hrequest⟩
  | sleep millis =>
      dsimp only at hperform
      by_cases hbefore : history.stopped = true
      · rw [if_pos hbefore] at hperform
        obtain ⟨rfl, -⟩ := Prod.mk.inj (Except.ok.inj hperform)
        exact absurd (hbefore.symm.trans hstopped) (by decide)
      · rw [if_neg hbefore] at hperform
        obtain ⟨b, hsleep, hdone⟩ := bind_eq_ok hperform
        obtain ⟨rfl, -⟩ := Prod.mk.inj (Except.ok.inj hdone)
        exact ⟨hstopped, leads_of_sleep hsleep⟩
  | stop =>
      obtain ⟨rfl, -⟩ := Prod.mk.inj (Except.ok.inj hperform)
      contradiction

/-- A step performs something and reports it, and the report takes back the mark that the screen has
changed. -/
theorem History.exists_perform_of_step {history next : History} {step : Step} {report : Report}
    (hstep : history.step step = .ok (next, report)) :
    ∃ middle refused, history.perform step = .ok (middle, refused) ∧ next = middle.reported ∧
      report = middle.report history.playback.performance.log.length refused := by
  obtain ⟨⟨middle, refused⟩, hperform, hreported⟩ := bind_eq_ok hstep
  obtain ⟨rfl, rfl⟩ := Prod.mk.inj (Except.ok.inj hreported)
  exact ⟨middle, refused, hperform, rfl, rfl⟩

/-- The first step, and then all the others. -/
theorem History.steps_cons_eq_ok {history last : History} {step : Step} {steps : List Step}
    {reports : List Report} (hsteps : history.steps (step :: steps) = .ok (last, reports)) :
    ∃ next report rest, history.step step = .ok (next, report) ∧
      next.steps steps = .ok (last, rest) ∧ reports = report :: rest := by
  obtain ⟨⟨next, report⟩, hstep, hmore⟩ := bind_eq_ok hsteps
  obtain ⟨⟨final, rest⟩, hrest, hdone⟩ := bind_eq_ok hmore
  obtain ⟨rfl, rfl⟩ := Prod.mk.inj (Except.ok.inj hdone)
  exact ⟨next, report, rest, hstep, hrest, rfl⟩

theorem History.leads_of_step {history next : History} {step : Step} {report : Report}
    (hstep : history.step step = .ok (next, report)) (hstopped : next.stopped = false) :
    history.stopped = false ∧ Leads history.playback.toPlayer next.playback.toPlayer := by
  obtain ⟨middle, refused, hperform, rfl, -⟩ := exists_perform_of_step hstep
  obtain ⟨hbefore, hleads⟩ := leads_of_perform hperform hstopped
  exact ⟨hbefore, hleads⟩

theorem History.leads_of_steps {history last : History} {steps : List Step}
    {reports : List Report} (hsteps : history.steps steps = .ok (last, reports))
    (hstopped : last.stopped = false) :
    history.stopped = false ∧ Leads history.playback.toPlayer last.playback.toPlayer := by
  induction steps generalizing history reports with
  | nil =>
      obtain ⟨rfl, -⟩ := Prod.mk.inj (Except.ok.inj hsteps)
      exact ⟨hstopped, .refl _⟩
  | cons step rest ih =>
      obtain ⟨next, report, others, hstep, hrest, -⟩ := steps_cons_eq_ok hsteps
      obtain ⟨hnext, hleads⟩ := ih hrest
      obtain ⟨hbefore, hfirst⟩ := leads_of_step hstep hnext
      exact ⟨hbefore, hfirst.trans hleads⟩

/-- As long as it is not stopped, a playback is a player to which something has happened. -/
theorem History.exists_plays_of_steps {history : History} {steps : List Step}
    {reports : List Report} (hstart : start setup script origin = .ok b)
    (hsteps : History.steps ⟨b, false⟩ steps = .ok (history, reports))
    (hstopped : history.stopped = false) :
    ∃ occurrences, Player.Plays setup script occurrences history.playback.toPlayer := by
  obtain ⟨occurrences, hplays⟩ := exists_plays_of_start hstart
  obtain ⟨more, hmore⟩ := (leads_of_steps hsteps hstopped).2 _ _ _ hplays
  exact ⟨_, hmore⟩

end Playback

end Typewriter
