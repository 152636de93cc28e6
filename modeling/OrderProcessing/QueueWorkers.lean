import OrderProcessing.System
import OrderProcessing.ForMathlib.FailFast
import OrderProcessing.ForMathlib.Loop

/-!
# Draining a queue

The pollers of `src/utils/queue-workers.ts` and the two POST routes of `src/routes/debug.ts` call
`consumeOne` until it yields nothing or throws. Here nobody else uses the queue meanwhile, and the
handler of a message always ends in the same way.

A message whose handler throws goes to the end of the queue, and the loop ends. A poller logs the
error and tries again later; a route answers with the error, and the messages that it has processed
are in no answer.

## Main definitions

* `consumeOne` — a call that nothing interrupts
* `drain` — the loop
* `tick`, `ticks` — polls of a worker
* `process` — a debug route

## Main results

* `drain_eq` — a drain takes what stands in front of the first failing message
* `ticks_no_starvation` — failing messages do not keep others waiting
* `process_isolation` — what a drain acknowledges, and what a failing message changes
-/

namespace OrderProcessing

variable {α ε : Type}

/-! ### `consumeOne`, alone -/

/-- `consumeOne(queueName)`, if nothing happens while its handler runs. -/
def consumeOne (queueName : String) (handler : QueueMessage α → Except ε Unit) (now : String)
    (w : QueueWorld α) : QueueWorld α × Except ε (Option (QueueMessage α × String)) :=
  match w.store.dequeue fun item => item.queueName = queueName with
  | none => (w, .ok none)
  | some (message, store) =>
    match handler message with
    | .error error => (w.withStore (store.enqueue message), .error error)
    | .ok () => (w.withStore store, .ok (some (message, now)))

/-- The message is handled without an error. -/
def succeeds (handler : QueueMessage α → Except ε Unit) (message : QueueMessage α) : Bool :=
  (handler message).isOk

/-- The two parts of an interleaved `consumeOne` call, one right after the other. -/
theorem consumeOne_interleaved (queueName : String) (handler : QueueMessage α → Except ε Unit)
    (now : String) (w : QueueWorld α) :
    (Consumption.start w queueName = (w, ⟨queueName, .returnedUndefined⟩) ∧
      consumeOne queueName handler now w = (w, .ok none)) ∨
    ∃ w₁ message call, Consumption.start w queueName = (w₁, ⟨queueName, .holding message⟩) ∧
      Consumption.settle w₁ ⟨queueName, .holding message⟩ (succeeds handler message) now
        = some ((consumeOne queueName handler now w).1, call) ∧
      ((∃ error, handler message = .error error ∧
          (consumeOne queueName handler now w).2 = .error error ∧ call.pc = .failed message) ∨
        (handler message = .ok () ∧
          (consumeOne queueName handler now w).2 = .ok (some (message, now)) ∧
          call.pc = .acknowledged message now)) := by
  cases hdequeue : w.store.dequeue fun item => item.queueName = queueName with
  | none =>
    exact Or.inl ⟨by simp only [Consumption.start, hdequeue],
      by simp only [consumeOne, hdequeue]⟩
  | some r =>
    obtain ⟨message, store⟩ := r
    refine Or.inr ⟨w.withStore store, message, ?_⟩
    simp only [Consumption.start, consumeOne, hdequeue, succeeds]
    cases hhandler : handler message with
    | error error => exact ⟨_, trivial, rfl, Or.inl ⟨error, rfl, rfl, rfl⟩⟩
    | ok => exact ⟨_, trivial, rfl, Or.inr ⟨rfl, rfl, rfl⟩⟩

section ConsumeOne

variable {queueName now : String} {handler : QueueMessage α → Except ε Unit} {w : QueueWorld α}
  {message : QueueMessage α} {rest : List (QueueMessage α)}

theorem consumeOne_of_nil (h : w.store.queueOf queueName = []) :
    consumeOne queueName handler now w = (w, .ok none) := by
  simp only [consumeOne, InMemoryQueueStore.dequeue_of_queueOf_nil h]

/-- The first message of the queue is taken out if its handler succeeds, and goes to the end if it
fails. No other queue changes. -/
theorem consumeOne_of_cons (handler : QueueMessage α → Except ε Unit) (now : String)
    (h : w.store.queueOf queueName = message :: rest) :
    ∃ w', w'.store.others queueName = w.store.others queueName ∧
      ((succeeds handler message = true ∧ w'.store.queueOf queueName = rest ∧
          consumeOne queueName handler now w = (w', .ok (some (message, now)))) ∨
        (succeeds handler message = false ∧ w'.store.queueOf queueName = rest ++ [message] ∧
          ∃ error, handler message = .error error ∧
            consumeOne queueName handler now w = (w', .error error))) := by
  obtain ⟨store, hdequeue, hname, hqueue, hothers, -⟩ :=
    InMemoryQueueStore.dequeue_of_queueOf_cons h
  simp only [consumeOne, hdequeue, succeeds]
  cases hhandler : handler message with
  | error error =>
    refine ⟨w.withStore (store.enqueue message), ?_, Or.inr ⟨rfl, ?_, error, rfl, rfl⟩⟩
    · exact (InMemoryQueueStore.others_enqueue hname).trans hothers
    · exact (InMemoryQueueStore.queueOf_enqueue hname).trans (by rw [hqueue])
  | ok => exact ⟨w.withStore store, hothers, Or.inl ⟨rfl, hqueue, rfl⟩⟩

end ConsumeOne

/-! ### The loop -/

/-- The variables of the loop. -/
structure Draining (α : Type) where
  world : QueueWorld α
  /-- The messages that `consumeOne` has returned. -/
  processed : List (QueueMessage α × String)

/-- The end of the loop. -/
structure Drained (α ε : Type) where
  world : QueueWorld α
  processed : List (QueueMessage α × String)
  /-- What `consumeOne` has thrown, if this has ended the loop. -/
  thrown : Option ε

/-- The body of the loop. `clock` gives the time of each message. -/
def drainPass (queueName : String) (handler : QueueMessage α → Except ε Unit) (clock : ℕ → String)
    (s : Draining α) : Loop.Next (Draining α) (Drained α ε) :=
  match consumeOne queueName handler (clock s.processed.length) s.world with
  | (world, .ok (some message)) => .again ⟨world, s.processed ++ [message]⟩
  | (world, .ok none) => .done ⟨world, s.processed, none⟩
  | (world, .error error) => .done ⟨world, s.processed, some error⟩

/-- The loop, in at most `fuel` passes. -/
def drain (fuel : ℕ) (queueName : String) (handler : QueueMessage α → Except ε Unit)
    (clock : ℕ → String) (w : QueueWorld α) : Option (Drained α ε) :=
  Loop.run (drainPass queueName handler clock) fuel ⟨w, []⟩

/-- What a drain does: it takes the messages in front of the first failing one, which it requeues
and whose error it throws. -/
structure Drained.Of (queueName : String) (handler : QueueMessage α → Except ε Unit)
    (s : Draining α) (d : Drained α ε) : Prop where
  processed : d.processed.map Prod.fst = s.processed.map Prod.fst ++
    (s.world.store.queueOf queueName).takeWhile (succeeds handler)
  queueOf : d.world.store.queueOf queueName
    = FailFast.requeue (succeeds handler) (s.world.store.queueOf queueName)
  others : d.world.store.others queueName = s.world.store.others queueName
  thrown : ((s.world.store.queueOf queueName).dropWhile (succeeds handler) = [] ∧ d.thrown = none) ∨
    ∃ message error, handler message = .error error ∧ d.thrown = some error ∧
      ((s.world.store.queueOf queueName).dropWhile (succeeds handler)).head? = some message

section Drain

variable {queueName : String} {handler : QueueMessage α → Except ε Unit} {clock : ℕ → String}
  {s : Draining α} {fuel : ℕ}

/-- **A drain ends**, after at most one pass more than there are messages in its queue. -/
theorem drain_run (hfuel : (s.world.store.queueOf queueName).length < fuel) :
    ∃ d, Loop.run (drainPass queueName handler clock) fuel s = some d ∧
      d.Of queueName handler s := by
  generalize hqueue : s.world.store.queueOf queueName = messages at hfuel
  induction messages generalizing s fuel with
  | nil =>
    obtain ⟨fuel, rfl⟩ : ∃ n, fuel = n + 1 := ⟨fuel - 1, by simp at hfuel; omega⟩
    have hpass : drainPass queueName handler clock s = .done ⟨s.world, s.processed, none⟩ := by
      simp only [drainPass, consumeOne_of_nil hqueue]
    refine ⟨_, Loop.run_succ_of_done hpass, ?_, ?_, rfl, Or.inl ⟨?_, rfl⟩⟩
    · rw [hqueue]; simp
    · rw [hqueue]; rfl
    · rw [hqueue]; rfl
  | cons message rest ih =>
    obtain ⟨fuel, rfl⟩ : ∃ n, fuel = n + 1 := ⟨fuel - 1, by simp at hfuel; omega⟩
    obtain ⟨w', hothers, ⟨hok, hrest, hconsume⟩ | ⟨hnot, hrest, error, herror, hconsume⟩⟩ :=
      consumeOne_of_cons handler (clock s.processed.length) hqueue
    · have hpass : drainPass queueName handler clock s
          = .again ⟨w', s.processed ++ [(message, clock s.processed.length)]⟩ := by
        simp only [drainPass, hconsume]
      have hfuel' : rest.length < fuel := by simpa using hfuel
      obtain ⟨d, hd, hof⟩ := ih (s := ⟨w', s.processed ++ [(message, clock s.processed.length)]⟩)
        hrest hfuel'
      refine ⟨d, (Loop.run_succ_of_again hpass).trans hd, ?_, ?_, hof.others.trans hothers, ?_⟩
      · rw [hof.processed, hqueue, hrest, List.takeWhile_cons_of_pos hok]
        simp
      · rw [hof.queueOf, hqueue, hrest, FailFast.requeue, FailFast.requeue,
          List.dropWhile_cons_of_pos hok]
      · rw [hqueue, List.dropWhile_cons_of_pos hok, ← hrest]
        exact hof.thrown
    · have hpass : drainPass queueName handler clock s
          = .done ⟨w', s.processed, some error⟩ := by
        simp only [drainPass, hconsume]
      have hnot' : ¬ succeeds handler message = true := by simp [hnot]
      refine ⟨_, Loop.run_succ_of_done hpass, ?_, ?_, hothers,
        Or.inr ⟨message, error, herror, rfl, ?_⟩⟩
      · rw [hqueue, List.takeWhile_cons_of_neg hnot', List.append_nil]
      · rw [hqueue, FailFast.requeue, List.dropWhile_cons_of_neg hnot']
        simpa using hrest
      · rw [hqueue, List.dropWhile_cons_of_neg hnot']
        rfl

/-- A drain takes what stands in front of the first failing message. -/
theorem drain_eq (handler : QueueMessage α → Except ε Unit) (clock : ℕ → String) (w : QueueWorld α)
    (hfuel : (w.store.queueOf queueName).length < fuel) :
    ∃ d, drain fuel queueName handler clock w = some d ∧ d.Of queueName handler ⟨w, []⟩ :=
  drain_run hfuel

end Drain

/-! ### Workers -/

/-- One poll of a worker, with the messages that it has handled without an error. An error is only
logged. -/
def tick (fuel : ℕ) (queueName : String) (handler : QueueMessage α → Except ε Unit)
    (clock : ℕ → String) (w : QueueWorld α) : Option (QueueWorld α × List (QueueMessage α)) :=
  (drain fuel queueName handler clock w).map fun d => (d.world, d.processed.map Prod.fst)

/-- A number of polls, none of which starts before the last one has ended. -/
def ticks (fuel : ℕ) (queueName : String) (handler : QueueMessage α → Except ε Unit) :
    (clocks : ℕ → ℕ → String) → ℕ → QueueWorld α → Option (QueueWorld α × List (QueueMessage α))
  | _, 0, w => some (w, [])
  | clocks, n + 1, w =>
    (tick fuel queueName handler (clocks 0) w).bind fun first =>
      (ticks fuel queueName handler (fun i => clocks (i + 1)) n first.1).map fun rest =>
        (rest.1, first.2 ++ rest.2)

/-- `startStatusQueueWorker`, after a number of polls. -/
def startStatusQueueWorker (config : AppConfig) (fuel : ℕ)
    (handler : QueueMessage α → Except ε Unit) (clocks : ℕ → ℕ → String) (n : ℕ)
    (w : QueueWorld α) : Option (QueueWorld α × List (QueueMessage α)) :=
  ticks fuel config.orderStatusQueue handler clocks n w

/-- `startOrderCreatedQueueWorker`, after a number of polls. -/
def startOrderCreatedQueueWorker (config : AppConfig) (fuel : ℕ)
    (handler : QueueMessage α → Except ε Unit) (clocks : ℕ → ℕ → String) (n : ℕ)
    (w : QueueWorld α) : Option (QueueWorld α × List (QueueMessage α)) :=
  ticks fuel config.orderCreatedQueue handler clocks n w

section Ticks

variable {queueName : String} {fuel : ℕ}

theorem length_requeue_le (p : QueueMessage α → Bool) (l : List (QueueMessage α)) :
    (FailFast.requeue p l).length ≤ l.length := by
  rw [FailFast.requeue, List.length_rotate]
  exact (List.dropWhile_sublist p).length_le

/-- Polls are passes over the messages of the queue. -/
theorem ticks_eq (handler : QueueMessage α → Except ε Unit) (clocks : ℕ → ℕ → String) (n : ℕ)
    (w : QueueWorld α) (hfuel : (w.store.queueOf queueName).length < fuel) :
    ∃ w', ticks fuel queueName handler clocks n w
        = some (w', (FailFast.passes (succeeds handler) n (w.store.queueOf queueName)).1) ∧
      w'.store.queueOf queueName
        = (FailFast.passes (succeeds handler) n (w.store.queueOf queueName)).2 ∧
      w'.store.others queueName = w.store.others queueName := by
  induction n generalizing w clocks with
  | zero => exact ⟨w, rfl, rfl, rfl⟩
  | succ n ih =>
    obtain ⟨d, hd, hof⟩ := drain_eq handler (clocks 0) w hfuel
    have hqueue : d.world.store.queueOf queueName = _ := hof.queueOf
    have hfuel' : (d.world.store.queueOf queueName).length < fuel := by
      rw [hqueue]
      exact (length_requeue_le _ _).trans_lt hfuel
    obtain ⟨w', hrest, hleft, hothers⟩ := ih (fun i => clocks (i + 1)) d.world hfuel'
    refine ⟨w', ?_, ?_, hothers.trans hof.others⟩
    · simp only [ticks, tick, hd, Option.map_some, Option.bind_some, hrest, FailFast.passes, hqueue,
        hof.processed, List.map_nil, List.nil_append]
    · rw [hleft, hqueue, FailFast.passes]

/-- **Failing messages do not keep others waiting.** Every poll ends. With one poll more than there
are failing messages in the queue, every other message of the queue has been handled once, in order,
and the failing ones are what is left of it. -/
theorem ticks_no_starvation (queueName : String) (handler : QueueMessage α → Except ε Unit)
    (clocks : ℕ → ℕ → String) (w : QueueWorld α) (more : ℕ) :
    (∀ n, ∃ result, ticks ((w.store.queueOf queueName).length + 1 + more) queueName handler clocks
      n w = some result) ∧
    ∃ w', ticks ((w.store.queueOf queueName).length + 1 + more) queueName handler clocks
        ((w.store.queueOf queueName).countP (fun message => !succeeds handler message) + 1) w
          = some (w', (w.store.queueOf queueName).filter (succeeds handler)) ∧
      w'.store.queueOf queueName
        ~r (w.store.queueOf queueName).filter (fun message => !succeeds handler message) ∧
      w'.store.others queueName = w.store.others queueName := by
  have hfuel : (w.store.queueOf queueName).length
      < (w.store.queueOf queueName).length + 1 + more := by omega
  constructor
  · intro n
    obtain ⟨w', hticks, -⟩ := ticks_eq handler clocks n w hfuel
    exact ⟨_, hticks⟩
  · obtain ⟨htaken, hleft⟩ :=
      FailFast.passes_countP (succeeds handler) (w.store.queueOf queueName)
    obtain ⟨w', hticks, hqueue, hothers⟩ := ticks_eq handler clocks
      ((w.store.queueOf queueName).countP (fun message => !succeeds handler message) + 1) w hfuel
    rw [htaken] at hticks
    exact ⟨w', hticks, hqueue ▸ hleft, hothers⟩

end Ticks

/-! ### Debug routes -/

/-- The messages that a drain has acknowledged. -/
def Drained.acknowledged (d : Drained α ε) : List (QueueMessage α) := d.processed.map Prod.fst

/-- What a route answers: the messages that it has processed, or the error that has ended the loop.
-/
def Drained.response (d : Drained α ε) : Except ε (List (QueueMessage α × String)) :=
  match d.thrown with
  | none => .ok d.processed
  | some error => .error error

/-- `POST /debug/queues/order-created/process`. -/
def processOrderCreated (config : AppConfig) (fuel : ℕ) (handler : QueueMessage α → Except ε Unit)
    (clock : ℕ → String) (w : QueueWorld α) : Option (Drained α ε) :=
  drain fuel config.orderCreatedQueue handler clock w

/-- `POST /debug/queues/order-status/process`. -/
def processOrderStatus (config : AppConfig) (fuel : ℕ) (handler : QueueMessage α → Except ε Unit)
    (clock : ℕ → String) (w : QueueWorld α) : Option (Drained α ε) :=
  drain fuel config.orderStatusQueue handler clock w

section Isolation

variable {queueName : String} {w : QueueWorld α} {d d' : Drained α ε}
  {handler handler' : QueueMessage α → Except ε Unit}

theorem Drained.Of.acknowledged_eq (h : d.Of queueName handler ⟨w, []⟩) :
    d.acknowledged = (w.store.queueOf queueName).takeWhile (succeeds handler) := h.processed

/-- What a drain does. -/
structure Drained.Complete (queueName : String) (handler : QueueMessage α → Except ε Unit)
    (w : QueueWorld α) (d : Drained α ε) : Prop where
  /-- It acknowledges the messages in front of the first one whose handler fails. -/
  acknowledged : d.acknowledged = (w.store.queueOf queueName).takeWhile (succeeds handler)
  /-- Either these are all, and the answer lists them, or the answer is the error of the failing
  message, which is at the end of the queue now. -/
  outcome : (d.acknowledged = w.store.queueOf queueName ∧ d.world.store.queueOf queueName = [] ∧
      d.response = .ok d.processed) ∨
    ∃ message rest error, w.store.queueOf queueName = d.acknowledged ++ message :: rest ∧
      handler message = .error error ∧ d.response = .error error ∧
      d.world.store.queueOf queueName = rest ++ [message]
  /-- The other queues are not touched. -/
  others : d.world.store.others queueName = w.store.others queueName

theorem Drained.Of.complete (h : d.Of queueName handler ⟨w, []⟩) :
    d.Complete queueName handler w where
  acknowledged := h.acknowledged_eq
  outcome := by
    have hqueue := h.queueOf
    have hsplit := List.takeWhile_append_dropWhile (p := succeeds handler)
      (l := w.store.queueOf queueName)
    rcases h.thrown with ⟨hnil, hnone⟩ | ⟨message, error, herror, hthrown, hhead⟩
    · left
      rw [hnil, List.append_nil, ← h.acknowledged_eq] at hsplit
      refine ⟨hsplit, ?_, by rw [Drained.response, hnone]⟩
      rw [hqueue, FailFast.requeue, hnil]
      rfl
    · right
      obtain ⟨rest, hdrop⟩ := List.head?_eq_some_iff.mp hhead
      rw [hdrop, ← h.acknowledged_eq] at hsplit
      refine ⟨message, rest, error, hsplit.symm, herror, by rw [Drained.response, hthrown], ?_⟩
      rw [hqueue, FailFast.requeue, hdrop, List.rotate_cons_succ, List.rotate_zero]
  others := h.others

/-- The run has stopped at a failing message of the part `b`, and the other one has acknowledged
this message too. -/
def Drained.StoppedBefore (b : QueueMessage α → Prop)
    (handler : QueueMessage α → Except ε Unit) (d d' : Drained α ε) : Prop :=
  ∃ message, b message ∧ succeeds handler message = false ∧
    d.acknowledged ++ [message] <+: d'.acknowledged

/-- Two drains whose handlers agree outside of `b`. -/
theorem Drained.Of.cases {b : QueueMessage α → Prop} (h : d.Of queueName handler ⟨w, []⟩)
    (h' : d'.Of queueName handler' ⟨w, []⟩)
    (hagree : ∀ message, ¬ b message → handler message = handler' message) :
    d.acknowledged = d'.acknowledged ∨ d.StoppedBefore b handler d' ∨
      d'.StoppedBefore b handler' d := by
  have hfails : ∀ {handler : QueueMessage α → Except ε Unit} {message : QueueMessage α},
      ((w.store.queueOf queueName).dropWhile (succeeds handler)).head? = some message →
      succeeds handler message = false := by
    intro handler message hhead
    have hnot := List.head?_dropWhile_not (succeeds handler) (w.store.queueOf queueName)
    rwa [hhead] at hnot
  rw [Drained.StoppedBefore, Drained.StoppedBefore, h.acknowledged_eq, h'.acknowledged_eq]
  rcases FailFast.takeWhile_cases (p := succeeds handler) (q := succeeds handler')
    (fun message hb => by rw [succeeds, succeeds, hagree message hb])
    (w.store.queueOf queueName) with hsame | ⟨message, hhead, hb, hprefix⟩ |
    ⟨message, hhead, hb, hprefix⟩
  · exact Or.inl hsame
  · exact Or.inr (Or.inl ⟨message, hb, hfails hhead, hprefix⟩)
  · exact Or.inr (Or.inr ⟨message, hb, hfails hhead, hprefix⟩)

/-- **What a failing message changes.** A drain acknowledges the messages in front of the first
failing one, and lists them only if there is none. Two drains whose handlers differ only for
messages of one order acknowledge the same messages, or one of them stops at a failing message of
that order, which the other one acknowledges. -/
theorem process_isolation (queueName orderId : String) (w : QueueWorld Payload)
    (clock : ℕ → String) (more : ℕ) (handler handler' : QueueMessage Payload → Except ε Unit)
    (hagree : ∀ message, message.payload.orderId ≠ orderId → handler message = handler' message) :
    ∃ d d',
      drain ((w.store.queueOf queueName).length + 1 + more) queueName handler clock w = some d ∧
      drain ((w.store.queueOf queueName).length + 1 + more) queueName handler' clock w = some d' ∧
      d.Complete queueName handler w ∧ d'.Complete queueName handler' w ∧
      (d.acknowledged = d'.acknowledged ∨
        d.StoppedBefore (fun message => message.payload.orderId = orderId) handler d' ∨
        d'.StoppedBefore (fun message => message.payload.orderId = orderId) handler' d) := by
  have hfuel : (w.store.queueOf queueName).length
      < (w.store.queueOf queueName).length + 1 + more := by omega
  obtain ⟨d, hd, hof⟩ := drain_eq handler clock w hfuel
  obtain ⟨d', hd', hof'⟩ := drain_eq handler' clock w hfuel
  exact ⟨d, d', hd, hd', hof.complete, hof'.complete, hof.cases hof' hagree⟩

/-- A status update for an order. -/
def statusMessage (ref : ℕ) (orderId : String) : QueueMessage Payload where
  ref := ref
  queueName := "order-status-events"
  payload := .statusUpdate orderId ⟨"e1", .shipped, "2024-05-02T10:00:00.000Z"⟩
  sentAt := "2024-05-02T10:00:01.000Z"

/-- Updates for three orders wait. -/
def threeWaiting : QueueWorld Payload :=
  ⟨⟨[statusMessage 0 "a", statusMessage 1 "b", statusMessage 2 "c"]⟩, []⟩

/-- A handler that fails for one order. -/
def failsFor (orderId : String) (message : QueueMessage Payload) : Except String Unit :=
  if message.payload.orderId = orderId then .error "conflict" else .ok ()

theorem failsFor_of_ne {orderId : String} (message : QueueMessage Payload)
    (h : message.payload.orderId ≠ orderId) : failsFor orderId message = .ok () := if_neg h

theorem process_isolation_threeWaiting :
    ∃ d d', drain (threeWaiting.store.queueOf "order-status-events").length.succ
        "order-status-events" (failsFor "b") (fun _ => "now") threeWaiting = some d ∧
      drain (threeWaiting.store.queueOf "order-status-events").length.succ
        "order-status-events" (fun _ => .ok ()) (fun _ => "now") threeWaiting = some d' ∧
      d.Complete "order-status-events" (failsFor "b") threeWaiting ∧
      (d.acknowledged = d'.acknowledged ∨
        d.StoppedBefore (fun message => message.payload.orderId = "b") (failsFor "b") d' ∨
        d'.StoppedBefore (fun message => message.payload.orderId = "b") (fun _ => .ok ()) d) := by
  obtain ⟨d, d', hd, hd', hcomplete, -, hcases⟩ := process_isolation "order-status-events" "b"
    threeWaiting (fun _ => "now") 0 (failsFor "b") (fun _ => .ok ()) failsFor_of_ne
  exact ⟨d, d', hd, hd', hcomplete, hcases⟩

/-- If the update for `b` fails, the one for `c` is not acknowledged, and the answer does not list
the one for `a`, which is. -/
theorem process_not_isolated :
    ∃ d d', processOrderStatus .default 4 (failsFor "b") (fun _ => "now") threeWaiting = some d ∧
      processOrderStatus .default 4 (fun _ => (.ok () : Except String Unit)) (fun _ => "now")
        threeWaiting = some d' ∧
      (∀ message, message.payload.orderId ≠ "b" → failsFor "b" message = .ok ()) ∧
      d.acknowledged.map QueueMessage.ref = [0] ∧
      d'.acknowledged.map QueueMessage.ref = [0, 1, 2] ∧ d.response.isOk = false := by
  have hfails : (processOrderStatus .default 4 (failsFor "b") (fun _ => "now") threeWaiting).map
      (fun d => (d.acknowledged.map QueueMessage.ref, d.response.isOk)) = some ([0], false) := by
    decide
  have hall : (processOrderStatus .default 4 (fun _ => (.ok () : Except String Unit))
      (fun _ => "now") threeWaiting).map (fun d => d.acknowledged.map QueueMessage.ref)
      = some [0, 1, 2] := by decide
  obtain ⟨d, hd, hobs⟩ := Option.map_eq_some_iff.mp hfails
  obtain ⟨d', hd', hobs'⟩ := Option.map_eq_some_iff.mp hall
  obtain ⟨hacknowledged, hresponse⟩ := Prod.mk.inj hobs
  exact ⟨d, d', hd, hd', failsFor_of_ne, hacknowledged, hobs', hresponse⟩

end Isolation

end OrderProcessing
