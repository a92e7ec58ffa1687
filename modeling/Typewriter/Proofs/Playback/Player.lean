import Typewriter.Playback.Basic
import Typewriter.Proofs.Performance.Alarms

/-!
# Players

A `Playback` serves a request at once and rings each alarm on time.  A player may do both in many
ways: requests come from several hands and wait in a queue, time passes as it likes, and between
the first request of the queue and an armed alarm whose deadline is reached the player may choose.
After either of them it looks at the performance again, publishes the screen and arms the pending
alarm.

`Step` lists what can happen to a player, and `Plays` what can have happened to it since it began.
The main statement is `faithful_of_plays`: whenever a player waits, its armed alarm is the pending
one, with the deadline of its first look at it, and its performance is what the requests and the
alarms that rang have made of it.

Times are nanoseconds, and the clock is not given an end.  On a clock with an end a player may break
off instead of looking; up to then it does nothing else, so what holds of all players here holds of
it too.
-/

namespace Typewriter

/-- A performance with a clock and a queue of requests, the oldest first. -/
structure Player where
  performance : Performance
  now : Nat := 0
  queue : List Request := []
  armed : Option Armed := none
  published : Screen
  /-- Whether the player is going to look at the performance.  Otherwise it waits. -/
  looking : Bool := true

/-- The request that an operation meets. -/
def Performance.Operation.request? : Performance.Operation → Option Request
  | .advance => some .advance
  | .load script => some (.load script)
  | .ring _ => none

namespace Player

/-- Something that happened to a player. -/
inductive Occurrence where
  | sent (request : Request)
  | passed (nanos : Nat)
  /-- The player looked at the performance, at some time, and found an alarm pending or none. -/
  | looked (time : Nat) (pending : Option Alarm)
  | rang (time : Nat) (alarm : Alarm)
  | received (request : Request)

/-- The alarm that is to be armed after a look: the pending one, with its old deadline if it is
armed already. -/
def rearmed (b : Player) : Option Armed :=
  b.performance.pending.map fun alarm =>
    match b.armed with
    | some armed => if armed.alarm = alarm then armed else ⟨alarm, b.now + alarm.delay.nanos⟩
    | none => ⟨alarm, b.now + alarm.delay.nanos⟩

/-- Publish the screen and arm the pending alarm. -/
def look (b : Player) : Player :=
  { b with published := b.performance.screen, armed := b.rearmed, looking := false }

/-- What can happen to a player. -/
inductive Step (b : Player) : Occurrence → Player → Prop where
  | send (request : Request) : Step b (.sent request) { b with queue := b.queue ++ [request] }
  | pass (nanos : Nat) : Step b (.passed nanos) { b with now := b.now + nanos }
  | look (looking_eq : b.looking = true) : Step b (.looked b.now b.performance.pending) b.look
  | ring (armed : Armed) (p : Performance) (waiting : b.looking = false)
      (armed_eq : b.armed = some armed) (due : armed.deadline ≤ b.now)
      (ring_eq : b.performance.ring armed.alarm = .ok p) :
      Step b (.rang b.now armed.alarm) { b with performance := p, armed := none, looking := true }
  | receive (request : Request) (rest : List Request) (p : Performance)
      (waiting : b.looking = false) (queue_eq : b.queue = request :: rest)
      (apply_eq : b.performance.apply request.operation = .ok p) :
      Step b (.received request) { b with performance := p, queue := rest, looking := true }

/-- The player of a performance that has just started. -/
def opening (p : Performance) : Player :=
  { performance := p, published := p.screen }

/-- What can have happened to a player of a script, the earliest first, and what it has become. -/
inductive Plays (setup : Setup) (script : Script) : List Occurrence → Player → Prop where
  | opening {p : Performance} (start_eq : Performance.start setup script = .ok p) :
      Plays setup script [] (opening p)
  | step {history : List Occurrence} {b next : Player} {occurrence : Occurrence}
      (plays : Plays setup script history b) (step : Step b occurrence next) :
      Plays setup script (history ++ [occurrence]) next

/-! ## What a history tells -/

/-- The request that was sent. -/
def Occurrence.sent? : Occurrence → Option Request
  | .sent request => some request
  | _ => none

/-- The request that was received. -/
def Occurrence.received? : Occurrence → Option Request
  | .received request => some request
  | _ => none

/-- What was done to the performance. -/
def Occurrence.operation? : Occurrence → Option Performance.Operation
  | .received request => some request.operation
  | .rang _ alarm => some (.ring alarm)
  | _ => none

/-- The time of a look at which an alarm was pending. -/
def Occurrence.seen? (alarm : Alarm) : Occurrence → Option Nat
  | .looked time pending => if pending = some alarm then some time else none
  | _ => none

/-- The requests that were sent, in their order. -/
def sent (history : List Occurrence) : List Request :=
  history.filterMap Occurrence.sent?

/-- The requests that were received, in their order. -/
def received (history : List Occurrence) : List Request :=
  history.filterMap Occurrence.received?

/-- All that was done to the performance, in its order. -/
def operations (history : List Occurrence) : List Performance.Operation :=
  history.filterMap Occurrence.operation?

/-- The time of the first look at which an alarm was pending. -/
def firstSeen? (history : List Occurrence) (alarm : Alarm) : Option Nat :=
  history.findSome? (Occurrence.seen? alarm)

variable {setup : Setup} {script : Script} {history : List Occurrence} {b next : Player}
  {occurrence : Occurrence} {alarm : Alarm}

theorem filterMap_concat {α : Type} (f : Occurrence → Option α) (history : List Occurrence)
    (occurrence : Occurrence) :
    (history ++ [occurrence]).filterMap f = history.filterMap f ++ (f occurrence).toList := by
  rw [List.filterMap_append]
  cases hvalue : f occurrence with
  | none => rw [List.filterMap_cons_none hvalue, List.filterMap_nil, Option.toList_none]
  | some value => rw [List.filterMap_cons_some hvalue, List.filterMap_nil, Option.toList_some]

theorem sent_concat (history : List Occurrence) (occurrence : Occurrence) :
    sent (history ++ [occurrence]) = sent history ++ occurrence.sent?.toList :=
  filterMap_concat Occurrence.sent? history occurrence

theorem received_concat (history : List Occurrence) (occurrence : Occurrence) :
    received (history ++ [occurrence]) = received history ++ occurrence.received?.toList :=
  filterMap_concat Occurrence.received? history occurrence

theorem operations_concat (history : List Occurrence) (occurrence : Occurrence) :
    operations (history ++ [occurrence]) = operations history ++ occurrence.operation?.toList :=
  filterMap_concat Occurrence.operation? history occurrence

theorem firstSeen?_concat (history : List Occurrence) (occurrence : Occurrence) (alarm : Alarm) :
    firstSeen? (history ++ [occurrence]) alarm =
      (firstSeen? history alarm).or (occurrence.seen? alarm) := by
  rw [firstSeen?, List.findSome?_append]
  cases hseen : occurrence.seen? alarm with
  | none => simp [firstSeen?, hseen]
  | some time => simp [firstSeen?, hseen]

/-- Receiving is all that meets a request. -/
theorem filterMap_request?_operations (history : List Occurrence) :
    (operations history).filterMap Performance.Operation.request? = received history := by
  rw [operations, received, List.filterMap_filterMap]
  congr 1
  funext occurrence
  cases occurrence with
  | received request => cases request <;> rfl
  | _ => rfl

/-- What is received is taken from the front of the queue, and what is sent put at its end. -/
theorem Step.queue_eq (hstep : Step b occurrence next) :
    occurrence.received?.toList ++ next.queue = b.queue ++ occurrence.sent?.toList := by
  cases hstep with
  | send request => rfl
  | pass nanos => exact (List.append_nil b.queue).symm
  | look _ => exact (List.append_nil b.queue).symm
  | ring _ _ _ _ _ _ => exact (List.append_nil b.queue).symm
  | receive request rest p _ hrest _ =>
      rw [hrest]
      exact (List.append_nil (request :: rest)).symm

/-! ## What a player keeps true -/

/-- What holds of a player at all times.  An alarm that was seen and is still pending is armed, and
an alarm that was seen has a number that was handed out, so it is not mistaken for a later one. -/
structure Faithful (setup : Setup) (script : Script) (history : List Occurrence) (b : Player) :
    Prop where
  run_eq : ∃ p₀, Performance.start setup script = .ok p₀ ∧
    p₀.run (operations history) = .ok b.performance
  queue_eq : received history ++ b.queue = sent history
  deadline_eq : ∀ armed, b.armed = some armed →
    ∃ time, firstSeen? history armed.alarm = some time ∧
      armed.deadline = time + armed.alarm.delay.nanos
  issued : ∀ alarm time, firstSeen? history alarm = some time → b.performance.Issued alarm
  armed_of_seen : ∀ alarm time, firstSeen? history alarm = some time →
    b.performance.pending = some alarm → ∃ armed, b.armed = some armed ∧ armed.alarm = alarm
  waits : b.looking = false →
    b.armed.map Armed.alarm = b.performance.pending ∧ b.published = b.performance.screen

theorem Faithful.coherent (hfaithful : Faithful setup script history b) :
    b.performance.Coherent := by
  obtain ⟨p₀, hstart, hrun⟩ := hfaithful.run_eq
  exact Performance.coherent_of_run (Performance.coherent_of_start hstart) hrun

theorem Faithful.issued_of_pending (hfaithful : Faithful setup script history b)
    (hpending : b.performance.pending = some alarm) : b.performance.Issued alarm := by
  obtain ⟨p₀, hstart, hrun⟩ := hfaithful.run_eq
  exact Performance.issued_of_pending hstart hrun hpending

theorem faithful_opening {p : Performance} (hstart : Performance.start setup script = .ok p) :
    Faithful setup script [] (opening p) := by
  refine ⟨⟨p, hstart, rfl⟩, rfl, ?_, ?_, ?_, ?_⟩
  · intro armed harmed
    contradiction
  · intro alarm time hseen
    contradiction
  · intro alarm time hseen
    contradiction
  · intro hwaits
    contradiction

/-- Requests are received in the order in which they were sent. -/
theorem Faithful.queue_concat (hfaithful : Faithful setup script history b)
    (hstep : Step b occurrence next) :
    received (history ++ [occurrence]) ++ next.queue = sent (history ++ [occurrence]) := by
  rw [received_concat, sent_concat, List.append_assoc, hstep.queue_eq, ← List.append_assoc,
    hfaithful.queue_eq]

/-- Time and requests on their way change nothing of what was seen and done. -/
theorem Faithful.concat_unseen (hfaithful : Faithful setup script history b)
    (hoperation : occurrence.operation? = none) (hseen : ∀ alarm, occurrence.seen? alarm = none)
    (hperformance : next.performance = b.performance) (harmed : next.armed = b.armed)
    (hpublished : next.published = b.published) (hlooking : next.looking = b.looking)
    (hqueue : received (history ++ [occurrence]) ++ next.queue = sent (history ++ [occurrence])) :
    Faithful setup script (history ++ [occurrence]) next := by
  have hfirst (alarm : Alarm) :
      firstSeen? (history ++ [occurrence]) alarm = firstSeen? history alarm := by
    rw [firstSeen?_concat, hseen, Option.or_none]
  refine ⟨?_, hqueue, ?_, ?_, ?_, ?_⟩
  · rw [operations_concat, hoperation, hperformance, Option.toList_none, List.append_nil]
    exact hfaithful.run_eq
  · rw [harmed]
    simp only [hfirst]
    exact hfaithful.deadline_eq
  · rw [hperformance]
    simp only [hfirst]
    exact hfaithful.issued
  · rw [hperformance, harmed]
    simp only [hfirst]
    exact hfaithful.armed_of_seen
  · rw [hlooking, hperformance, harmed, hpublished]
    exact hfaithful.waits

theorem rearmed_of_pending_eq_none (hpending : b.performance.pending = none) :
    b.rearmed = none := by
  rw [rearmed, hpending]
  rfl

/-- The pending alarm is armed, either before or at present. -/
theorem rearmed_of_pending_eq_some (hpending : b.performance.pending = some alarm) :
    (∃ armed, b.armed = some armed ∧ armed.alarm = alarm ∧ b.rearmed = some armed) ∨
      ((∀ armed, b.armed = some armed → armed.alarm ≠ alarm) ∧
        b.rearmed = some ⟨alarm, b.now + alarm.delay.nanos⟩) := by
  unfold rearmed
  rw [hpending, Option.map_some]
  cases harmed : b.armed with
  | none => exact .inr ⟨fun armed hsome => by contradiction, rfl⟩
  | some armed =>
      by_cases hsame : armed.alarm = alarm
      · exact .inl ⟨armed, rfl, hsame, congrArg some (if_pos hsame)⟩
      · refine .inr ⟨?_, congrArg some (if_neg hsame)⟩
        intro other hother
        rw [← Option.some.inj hother]
        exact hsame

theorem map_alarm_rearmed (b : Player) : b.rearmed.map Armed.alarm = b.performance.pending := by
  cases hpending : b.performance.pending with
  | none => rw [rearmed_of_pending_eq_none hpending, Option.map_none]
  | some alarm =>
      rcases rearmed_of_pending_eq_some hpending with ⟨armed, -, hsame, heq⟩ | ⟨-, heq⟩
      · rw [heq, Option.map_some, hsame]
      · rw [heq, Option.map_some]

theorem seen?_looked (time : Nat) (pending : Option Alarm) (alarm : Alarm) :
    (Occurrence.looked time pending).seen? alarm =
      if pending = some alarm then some time else none := rfl

/-- A look arms an alarm only if it is the first one at it. -/
theorem Faithful.look (hfaithful : Faithful setup script history b)
    (hlooking : b.looking = true) :
    Faithful setup script (history ++ [.looked b.now b.performance.pending]) b.look := by
  refine ⟨?run, hfaithful.queue_concat (.look hlooking), ?deadline, ?issued, ?armed, ?waits⟩
  case run =>
    rw [operations_concat]
    exact (List.append_nil (operations history)).symm ▸ hfaithful.run_eq
  case deadline =>
    intro armed harmed
    rw [firstSeen?_concat]
    have hpending : b.performance.pending = some armed.alarm := by
      rw [← map_alarm_rearmed, show b.rearmed = some armed from harmed, Option.map_some]
    rcases rearmed_of_pending_eq_some hpending with ⟨same, hsame, -, heq⟩ | ⟨hnew, heq⟩
    · obtain rfl : same = armed := Option.some.inj (heq.symm.trans harmed)
      obtain ⟨time, hseen, hdeadline⟩ := hfaithful.deadline_eq same hsame
      exact ⟨time, by rw [hseen, Option.some_or], hdeadline⟩
    · -- If it had been seen before, it would be armed before.
      have hunseen : firstSeen? history armed.alarm = none := by
        cases hseen : firstSeen? history armed.alarm with
        | none => rfl
        | some time =>
            obtain ⟨same, hsame, halarm⟩ := hfaithful.armed_of_seen _ time hseen hpending
            exact absurd halarm (hnew same hsame)
      refine ⟨b.now, ?_, ?_⟩
      · rw [hunseen, Option.none_or, seen?_looked, if_pos hpending]
      · exact (congrArg Armed.deadline (Option.some.inj (heq.symm.trans harmed))).symm
  case issued =>
    intro alarm time hseen
    rw [firstSeen?_concat, seen?_looked] at hseen
    cases hbefore : firstSeen? history alarm with
    | some earlier => exact hfaithful.issued alarm earlier hbefore
    | none =>
        rw [hbefore, Option.none_or] at hseen
        split at hseen
        · exact hfaithful.issued_of_pending ‹_›
        · contradiction
  case armed =>
    intro alarm _ _ hpending
    have hmap := map_alarm_rearmed b
    rw [show b.performance.pending = some alarm from hpending] at hmap
    obtain ⟨armed, harmed, halarm⟩ := Option.map_eq_some_iff.mp hmap
    exact ⟨armed, harmed, halarm⟩
  case waits =>
    intro _
    exact ⟨map_alarm_rearmed b, rfl⟩

/-- An operation that leaves no seen alarm pending, unless it is armed, may be done to the
performance. -/
theorem Faithful.concat_operation (hfaithful : Faithful setup script history b)
    (operation : Performance.Operation)
    (hoperation : occurrence.operation? = some operation)
    (hseen : ∀ alarm, occurrence.seen? alarm = none)
    (happly : b.performance.apply operation = .ok next.performance)
    (harmed : ∀ armed, next.armed = some armed → b.armed = some armed)
    (hpending : ∀ alarm, b.performance.Issued alarm → next.performance.pending = some alarm →
      b.performance.pending = some alarm ∧ next.armed = b.armed)
    (hlooking : next.looking = true)
    (hqueue : received (history ++ [occurrence]) ++ next.queue = sent (history ++ [occurrence])) :
    Faithful setup script (history ++ [occurrence]) next := by
  have hfirst (alarm : Alarm) :
      firstSeen? (history ++ [occurrence]) alarm = firstSeen? history alarm := by
    rw [firstSeen?_concat, hseen, Option.or_none]
  have honward := (hfaithful.coherent.course happly).onward
  refine ⟨?run, hqueue, ?deadline, ?issued, ?armed, ?waits⟩
  case run =>
    obtain ⟨p₀, hstart, hrun⟩ := hfaithful.run_eq
    rw [operations_concat, hoperation, Option.toList_some]
    exact ⟨p₀, hstart, Performance.run_concat_eq_ok_iff.mpr ⟨_, hrun, happly⟩⟩
  case deadline =>
    intro armed hsome
    rw [hfirst]
    exact hfaithful.deadline_eq armed (harmed armed hsome)
  case issued =>
    intro alarm time hsome
    rw [hfirst] at hsome
    exact honward.issued_mono alarm (hfaithful.issued alarm time hsome)
  case armed =>
    intro alarm time hsome hnext
    rw [hfirst] at hsome
    obtain ⟨hbefore, hsame⟩ := hpending alarm (hfaithful.issued alarm time hsome) hnext
    rw [hsame]
    exact hfaithful.armed_of_seen alarm time hsome hbefore
  case waits =>
    intro hwaits
    rw [hlooking] at hwaits
    contradiction

/-- What holds of a player holds after everything that can happen to it. -/
theorem Faithful.step (hfaithful : Faithful setup script history b)
    (hstep : Step b occurrence next) : Faithful setup script (history ++ [occurrence]) next := by
  have hqueue := hfaithful.queue_concat hstep
  cases hstep with
  | send request => exact hfaithful.concat_unseen rfl (fun _ => rfl) rfl rfl rfl rfl hqueue
  | pass nanos => exact hfaithful.concat_unseen rfl (fun _ => rfl) rfl rfl rfl rfl hqueue
  | look hlooking => exact hfaithful.look hlooking
  | ring armed p hwaiting harmed hdue hring =>
      have hpending : b.performance.pending = some armed.alarm := by
        rw [← (hfaithful.waits hwaiting).1, harmed, Option.map_some]
      refine hfaithful.concat_operation (.ring armed.alarm) rfl (fun _ => rfl) hring ?_ ?_ rfl
        hqueue
      · intro armed hsome
        contradiction
      · intro alarm hissued hlater
        exact absurd hissued
          (Performance.not_issued_of_ring hfaithful.coherent hpending hring hlater)
  | receive request rest p hwaiting hrest happly =>
      refine hfaithful.concat_operation request.operation rfl (fun _ => rfl) happly
        (fun _ hsome => hsome) ?_ rfl hqueue
      intro alarm hissued hlater
      have honward := (hfaithful.coherent.course happly).onward
      rcases honward.pending_new alarm hlater with hbefore | ⟨hnew, -⟩
      · exact ⟨hbefore, rfl⟩
      · exact absurd hissued hnew

theorem Plays.faithful (hplays : Plays setup script history b) :
    Faithful setup script history b := by
  induction hplays with
  | opening hstart => exact faithful_opening hstart
  | step _ hstep ih => exact ih.step hstep

/-- However requests, time and choices fall, whenever a player waits: an alarm is armed if and only
if one is pending, and it is that alarm, with the time of the first look at it plus its delay for a
deadline; so no alarm is rung that would have no effect, and none before its time.  The performance
is what the requests received and the alarms rung have made of it from its start, the requests were
received in the order in which they were sent, those left are in the queue, and the screen that was
published is the present one. -/
theorem faithful_of_plays (hplays : Plays setup script history b) (hwaits : b.looking = false) :
    (b.armed = none ↔ b.performance.pending = none) ∧
      (∀ armed, b.armed = some armed → b.performance.pending = some armed.alarm ∧
        ∃ time, firstSeen? history armed.alarm = some time ∧
          armed.deadline = time + armed.alarm.delay.nanos) ∧
      (∀ time alarm next, Step b (.rang time alarm) next →
        time = b.now ∧ b.performance.pending = some alarm ∧
          ∃ seen, firstSeen? history alarm = some seen ∧ seen + alarm.delay.nanos ≤ time) ∧
      (∃ p₀, Performance.start setup script = .ok p₀ ∧
        p₀.run (operations history) = .ok b.performance) ∧
      (operations history).filterMap Performance.Operation.request? = received history ∧
      received history ++ b.queue = sent history ∧
      b.published = b.performance.screen := by
  have hfaithful := hplays.faithful
  obtain ⟨hpending, hpublished⟩ := hfaithful.waits hwaits
  have harmed (armed : Armed) (hsome : b.armed = some armed) :
      b.performance.pending = some armed.alarm := by
    rw [← hpending, hsome, Option.map_some]
  refine ⟨?_, fun armed hsome => ⟨harmed armed hsome, hfaithful.deadline_eq armed hsome⟩, ?_,
    hfaithful.run_eq, filterMap_request?_operations history, hfaithful.queue_eq, hpublished⟩
  · rw [← hpending, Option.map_eq_none_iff]
  · intro time alarm next hstep
    cases hstep with
    | ring armed p _ hsome hdue _ =>
        obtain ⟨seen, hseen, hdeadline⟩ := hfaithful.deadline_eq armed hsome
        exact ⟨rfl, harmed armed hsome, seen, hseen, hdeadline ▸ hdue⟩

/-- A request that comes during a pause is ignored, and the deadline stays. -/
theorem faithful_of_plays_of_pause :
    ∃ history b, Plays {} [.pause (.ofMillis 5)] history b ∧ b.looking = false ∧ b.now = 2 ∧
      received history = [.advance] ∧
      b.armed = some ⟨⟨0, 0, .ofMillis 5, .walkOn 1⟩, 0 + (Duration.ofMillis 5).nanos⟩ := by
  have hplays : ∃ history b, Plays {} [.pause (.ofMillis 5)] history b ∧ b.looking = false ∧
      b.now = 2 ∧ received history = [.advance] ∧
      firstSeen? history ⟨0, 0, .ofMillis 5, .walkOn 1⟩ = some 0 ∧
      b.performance.pending = some ⟨0, 0, .ofMillis 5, .walkOn 1⟩ := by
    have hstart : ∃ p, Performance.start {} [.pause (.ofMillis 5)] = .ok p ∧
        p.pending = some ⟨0, 0, .ofMillis 5, .walkOn 1⟩ ∧ p.apply .advance = .ok p :=
      ⟨_, rfl, rfl, rfl⟩
    obtain ⟨p, hstart, hpending, hadvance⟩ := hstart
    have hlooked := (Plays.opening hstart).step (.look rfl)
    have hsent := (hlooked.step (.pass 2)).step (.send .advance)
    have hreceived := hsent.step (.receive .advance [] p rfl rfl hadvance)
    refine ⟨_, _, hreceived.step (.look rfl), rfl, rfl, rfl, ?_, hpending⟩
    simp [firstSeen?, Occurrence.seen?, opening, hpending]
  obtain ⟨history, b, hplays, hwaits, hnow, hreceived, hseen, hpending⟩ := hplays
  obtain ⟨hnone, harmed, -⟩ := faithful_of_plays hplays hwaits
  cases hsome : b.armed with
  | none =>
      rw [hnone.mp hsome] at hpending
      contradiction
  | some armed =>
      obtain ⟨halarm, time, hfirst, hdeadline⟩ := harmed armed hsome
      obtain ⟨alarm, deadline⟩ := armed
      obtain rfl := Option.some.inj (hpending.symm.trans halarm)
      obtain rfl := Option.some.inj (hseen.symm.trans hfirst)
      exact ⟨history, b, hplays, hwaits, hnow, hreceived, hsome.trans (by rw [← hdeadline])⟩

end Player

end Typewriter
