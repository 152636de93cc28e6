import OrderProcessing.ForMathlib.Interleave
import Mathlib.Data.List.Basic

/-!
# The in-memory queue

`src/services/outbound-event-service.ts`. One store holds the messages of all queues, in the order
in which they were put there. A consumer takes the oldest message of its queue, runs a handler on
it, and puts the message back at the end if the handler throws.

Everything between two `await`s runs at once. So `sendMessage` is one step; `consumeOne` takes the
message when it is called, and is then suspended until its handler has settled.

## Identity

A message is an object: taking it out and putting it back moves that object, and two sends with the
same contents make two messages. `QueueMessage.ref` is this identity. The log `QueueWorld.sent` of
all messages ever made is not part of the program; no step reads it, except to number the next
message.

## Main definitions

* `InMemoryQueueStore.enqueue`, `InMemoryQueueStore.dequeue`, `InMemoryQueueStore.clearQueue`
* `QueueWorld.sendMessage`
* `InMemoryQueueStore.queueOf`, `InMemoryQueueStore.others` — one queue of the store, and the rest
* `Consumption` — a `consumeOne` call
* `Queue.step` — senders and consumers, interleaved, over arbitrary handlers
-/

namespace OrderProcessing

variable {α : Type}

/-! ### The store -/

/-- A message with a payload of type `α`. -/
structure QueueMessage (α : Type) where
  /-- The identity of the object. -/
  ref : ℕ
  queueName : String
  payload : α
  sentAt : String

/-- `InMemoryQueueStore`: one array for the messages of all queues. -/
structure InMemoryQueueStore (α : Type) where
  messages : List (QueueMessage α)

namespace InMemoryQueueStore

/-- `enqueue`: at the end. -/
def enqueue (store : InMemoryQueueStore α) (message : QueueMessage α) : InMemoryQueueStore α :=
  ⟨store.messages ++ [message]⟩

/-- `dequeue`: the first message that satisfies the predicate is taken out. -/
def dequeue (store : InMemoryQueueStore α) (predicate : QueueMessage α → Bool) :
    Option (QueueMessage α × InMemoryQueueStore α) :=
  (store.messages.findIdx? predicate).bind fun idx =>
    (store.messages[idx]?).map fun message => (message, ⟨store.messages.eraseIdx idx⟩)

/-- `all`. -/
def all (store : InMemoryQueueStore α) : List (QueueMessage α) := store.messages

/-- `clear`. -/
def clear (_ : InMemoryQueueStore α) : InMemoryQueueStore α := ⟨[]⟩

/-- `clearQueue`. -/
def clearQueue (store : InMemoryQueueStore α) (queueName : String) : InMemoryQueueStore α :=
  ⟨store.messages.filter fun message => message.queueName ≠ queueName⟩

variable {store store' : InMemoryQueueStore α} {predicate : QueueMessage α → Bool}
  {message : QueueMessage α}

/-- What is taken out satisfies the predicate, and everything else stays. -/
theorem of_dequeue_eq_some (h : store.dequeue predicate = some (message, store')) :
    predicate message = true ∧ (message :: store'.messages).Perm store.messages := by
  obtain ⟨idx, hidx, h⟩ := Option.bind_eq_some_iff.mp h
  obtain ⟨found, hfound, heq⟩ := Option.map_eq_some_iff.mp h
  obtain ⟨rfl, rfl⟩ := Prod.mk.inj heq
  obtain ⟨hlt, hpred, -⟩ := List.findIdx?_eq_some_iff_getElem.mp hidx
  obtain ⟨hlt', rfl⟩ := List.getElem?_eq_some_iff.mp hfound
  exact ⟨hpred, List.getElem_cons_eraseIdx_perm hlt⟩

/-- A dequeue looks at the oldest message first. -/
theorem dequeue_cons (message : QueueMessage α) (messages : List (QueueMessage α)) :
    dequeue ⟨message :: messages⟩ predicate = if predicate message then some (message, ⟨messages⟩)
      else (dequeue ⟨messages⟩ predicate).map fun r => (r.1, ⟨message :: r.2.messages⟩) := by
  simp only [dequeue, List.findIdx?_cons]
  split
  · rfl
  · cases messages.findIdx? predicate with
    | none => rfl
    | some idx =>
      simp only [Option.map_some, Option.bind_some, List.getElem?_cons_succ,
        List.eraseIdx_cons_succ, Option.map_map]
      rfl

theorem dequeue_eq_none_iff :
    store.dequeue predicate = none ↔ ∀ message ∈ store.messages, predicate message = false := by
  obtain ⟨messages⟩ := store
  induction messages with
  | nil => simp [dequeue]
  | cons message messages ih =>
    rw [dequeue_cons, List.forall_mem_cons]
    cases predicate message with
    | true => simp
    | false => simpa using ih

/-- What is taken out is the oldest message that satisfies the predicate, from where it is. -/
theorem dequeue_eq_some_iff :
    store.dequeue predicate = some (message, store') ↔
      ∃ older newer, store.messages = older ++ message :: newer ∧
        store'.messages = older ++ newer ∧ (∀ m ∈ older, predicate m = false) ∧
        predicate message = true := by
  obtain ⟨messages⟩ := store
  induction messages generalizing store' with
  | nil => simp [dequeue]
  | cons m messages ih =>
    rw [dequeue_cons]
    constructor
    · intro h
      split at h
      · next hm =>
        obtain ⟨rfl, rfl⟩ := Prod.mk.inj (Option.some.inj h)
        exact ⟨[], messages, rfl, rfl, by simp, hm⟩
      · next hm =>
        obtain ⟨r, hr, heq⟩ := Option.map_eq_some_iff.mp h
        obtain ⟨rfl, rfl⟩ := Prod.mk.inj heq
        obtain ⟨older, newer, hmessages, hrest, holder, hmessage⟩ := ih.mp hr
        refine ⟨m :: older, newer, congrArg (m :: ·) hmessages, congrArg (m :: ·) hrest, ?_,
          hmessage⟩
        exact List.forall_mem_cons.mpr ⟨by simpa using hm, holder⟩
    · rintro ⟨older, newer, hmessages, hrest, holder, hmessage⟩
      cases older with
      | nil =>
        obtain ⟨rfl, rfl⟩ := List.cons.inj hmessages
        rw [if_pos hmessage]
        exact congrArg (fun l => some (m, InMemoryQueueStore.mk l)) hrest.symm
      | cons m' older =>
        obtain ⟨rfl, htail⟩ := List.cons.inj hmessages
        obtain ⟨hm, holder⟩ := List.forall_mem_cons.mp holder
        rw [if_neg (by simp [hm]), Option.map_eq_some_iff]
        refine ⟨(message, ⟨older ++ newer⟩),
          ih.mpr ⟨older, newer, htail, rfl, holder, hmessage⟩, ?_⟩
        exact congrArg (fun l => (message, InMemoryQueueStore.mk l)) hrest.symm

/-! ### The queues in the store -/

/-- The messages of one queue, in order. -/
def queueOf (store : InMemoryQueueStore α) (queueName : String) : List (QueueMessage α) :=
  store.messages.filter fun message => message.queueName = queueName

/-- The messages of all other queues, in order. -/
def others (store : InMemoryQueueStore α) (queueName : String) : List (QueueMessage α) :=
  store.messages.filter fun message => message.queueName ≠ queueName

variable {queueName : String} {rest : List (QueueMessage α)}

theorem queueOf_enqueue (h : message.queueName = queueName) :
    (store.enqueue message).queueOf queueName = store.queueOf queueName ++ [message] := by
  simp [queueOf, enqueue, h]

theorem others_enqueue (h : message.queueName = queueName) :
    (store.enqueue message).others queueName = store.others queueName := by
  simp [others, enqueue, h]

theorem dequeue_of_queueOf_nil (h : store.queueOf queueName = []) :
    store.dequeue (fun item => item.queueName = queueName) = none :=
  dequeue_eq_none_iff.mpr fun m hm =>
    decide_eq_false fun hname => List.filter_eq_nil_iff.mp h m hm (decide_eq_true hname)

/-- A dequeue takes the first message of the queue, and touches no other queue. -/
theorem dequeue_of_queueOf_cons (h : store.queueOf queueName = message :: rest) :
    ∃ store', store.dequeue (fun item => item.queueName = queueName) = some (message, store') ∧
      message.queueName = queueName ∧ store'.queueOf queueName = rest ∧
      store'.others queueName = store.others queueName ∧
      store'.messages.length + 1 = store.messages.length := by
  obtain ⟨older, newer, hmessages, holder, hname, hrest⟩ := List.filter_eq_cons_iff.mp h
  have hname : message.queueName = queueName := of_decide_eq_true hname
  have hother : ∀ m ∈ older, m.queueName ≠ queueName := by simpa using holder
  refine ⟨⟨older ++ newer⟩, dequeue_eq_some_iff.mpr ⟨older, newer, hmessages, rfl, ?_, ?_⟩, hname,
    ?_, ?_, ?_⟩
  · exact fun m hm => decide_eq_false (hother m hm)
  · exact decide_eq_true hname
  · rw [queueOf, List.filter_append, List.filter_eq_nil_iff.mpr, List.nil_append, hrest]
    simpa using hother
  · simp only [others, hmessages]
    rw [List.filter_append, List.filter_append, List.filter_cons_of_neg (by simpa using hname)]
  · simp only [hmessages, List.length_append, List.length_cons]
    omega

end InMemoryQueueStore

/-! ### Sending -/

/-- The store, and every message that was ever sent. -/
structure QueueWorld (α : Type) where
  store : InMemoryQueueStore α
  sent : List (QueueMessage α)

/-- Nothing was ever sent. -/
def QueueWorld.empty : QueueWorld α := ⟨⟨[]⟩, []⟩

/-- The message that `sendMessage` makes. -/
def QueueWorld.newMessage (w : QueueWorld α) (queueName : String) (payload : α) (now : String) :
    QueueMessage α where
  ref := w.sent.length
  queueName := queueName
  payload := payload
  sentAt := now

/-- `InMemoryQueueClient.sendMessage`. -/
def QueueWorld.sendMessage (w : QueueWorld α) (queueName : String) (payload : α) (now : String) :
    QueueWorld α where
  store := w.store.enqueue (w.newMessage queueName payload now)
  sent := w.sent ++ [w.newMessage queueName payload now]

/-- The same world with another store. -/
def QueueWorld.withStore (w : QueueWorld α) (store : InMemoryQueueStore α) : QueueWorld α :=
  { w with store := store }

/-! ### Consuming -/

/-- Where a `consumeOne` call is. -/
inductive Consumption.Pc (α : Type)
  /-- It found no message and has returned `undefined`. -/
  | returnedUndefined
  /-- Its handler runs on the message. -/
  | holding (message : QueueMessage α)
  /-- Its handler has completed, and it has returned the message with that `processedAt`. -/
  | acknowledged (message : QueueMessage α) (processedAt : String)
  /-- Its handler has thrown, and it has put the message back. -/
  | failed (message : QueueMessage α)

/-- A `consumeOne` call. -/
structure Consumption (α : Type) where
  queueName : String
  pc : Consumption.Pc α

namespace Consumption

/-- `consumeOne(queueName)`, up to the `await` of its handler. -/
def start (w : QueueWorld α) (queueName : String) : QueueWorld α × Consumption α :=
  match w.store.dequeue fun item => item.queueName = queueName with
  | none => (w, ⟨queueName, .returnedUndefined⟩)
  | some (message, store) => (w.withStore store, ⟨queueName, .holding message⟩)

/-- A consumer finds nothing, or takes a message of its queue out of the store. -/
theorem start_cases (w : QueueWorld α) (queueName : String) :
    start w queueName = (w, ⟨queueName, .returnedUndefined⟩) ∨
      ∃ message store, message.queueName = queueName ∧
        (message :: store.messages).Perm w.store.messages ∧
        start w queueName = (w.withStore store, ⟨queueName, .holding message⟩) := by
  cases hdequeue : w.store.dequeue fun item => item.queueName = queueName with
  | none => exact Or.inl (by simp only [start, hdequeue])
  | some r =>
    obtain ⟨hname, hperm⟩ := InMemoryQueueStore.of_dequeue_eq_some hdequeue
    exact Or.inr ⟨r.1, r.2, of_decide_eq_true hname, hperm, by simp only [start, hdequeue]⟩

/-- The rest of `consumeOne`, once the handler has settled. -/
def settle (w : QueueWorld α) (call : Consumption α) (succeeded : Bool) (now : String) :
    Option (QueueWorld α × Consumption α) :=
  match call.pc, succeeded with
  | .holding message, true => some (w, { call with pc := .acknowledged message now })
  | .holding message, false =>
    some (w.withStore (w.store.enqueue message), { call with pc := .failed message })
  | _, _ => none

/-- A consumer settles with the message that it holds: it keeps it, or puts it back. -/
theorem settle_cases {w w' : QueueWorld α} {call call' : Consumption α} {succeeded : Bool}
    {now : String} (h : call.settle w succeeded now = some (w', call')) :
    ∃ message, call.pc = .holding message ∧
      ((succeeded = true ∧ w' = w ∧ call' = { call with pc := .acknowledged message now }) ∨
        (succeeded = false ∧ w' = w.withStore (w.store.enqueue message) ∧
          call' = { call with pc := .failed message })) := by
  obtain ⟨queueName, pc⟩ := call
  cases pc with
  | holding message =>
    cases succeeded with
    | false =>
      obtain ⟨rfl, rfl⟩ := Prod.mk.inj (Option.some.inj h)
      exact ⟨message, rfl, Or.inr ⟨rfl, rfl, rfl⟩⟩
    | true =>
      obtain ⟨rfl, rfl⟩ := Prod.mk.inj (Option.some.inj h)
      exact ⟨message, rfl, Or.inl ⟨rfl, rfl, rfl⟩⟩
  | _ => simp [settle] at h

variable {w w' : QueueWorld α} {call call' : Consumption α} {succeeded : Bool} {now : String}

/-- A message that is stored once a consumer has settled was stored before, or the consumer held it.
-/
theorem mem_of_settle (h : call.settle w succeeded now = some (w', call'))
    {message : QueueMessage α} (hmem : message ∈ w'.store.messages) :
    message ∈ w.store.messages ∨ call.pc = .holding message := by
  obtain ⟨held, hpc, ⟨-, rfl, -⟩ | ⟨-, rfl, -⟩⟩ := settle_cases h
  · exact Or.inl hmem
  · refine (List.mem_append.mp hmem).imp_right fun hmem => ?_
    rw [hpc, List.mem_singleton.mp hmem]

/-- A consumer that has settled holds no message. -/
theorem not_holding_of_settle (h : call.settle w succeeded now = some (w', call'))
    (message : QueueMessage α) : call'.pc ≠ .holding message := by
  obtain ⟨held, -, ⟨-, -, rfl⟩ | ⟨-, -, rfl⟩⟩ := settle_cases h <;> simp

end Consumption

/-! ### Senders and consumers, interleaved -/

namespace Queue

/-- A running activation: some code that sends messages from time to time, or a `consumeOne` call.
-/
inductive Activation (α : Type)
  | sender
  | consumer (call : Consumption α)

/-- A sender or a `consumeOne` call starts. -/
inductive Request
  | sender
  | consumeOne (queueName : String)

/-- What an activation is resumed with. -/
inductive Input (α : Type)
  | sendMessage (queueName : String) (payload : α) (now : String)
  /-- The handler has completed normally, or has thrown. -/
  | settled (succeeded : Bool) (now : String)

/-- The queue, and all senders and `consumeOne` calls. -/
abbrev State (α : Type) := Interleave.State (QueueWorld α) (Activation α)

/-- One atomic step of the queue. -/
abbrev Action (α : Type) := Interleave.Action Request (Input α)

/-- A sender starts with nothing, a `consumeOne` call takes its message at once. -/
def start (w : QueueWorld α) : Request → Option (QueueWorld α × Activation α)
  | .sender => some (w, .sender)
  | .consumeOne queueName =>
    some ((Consumption.start w queueName).1, .consumer (Consumption.start w queueName).2)

/-- A sender sends a message, or the handler of a `consumeOne` call ends. -/
def act (w : QueueWorld α) : Activation α → Input α → Option (QueueWorld α × Activation α)
  | .sender, .sendMessage queueName payload now =>
    some (w.sendMessage queueName payload now, .sender)
  | .consumer call, .settled succeeded now =>
    (call.settle w succeeded now).map fun r => (r.1, .consumer r.2)
  | _, _ => none

/-- One step of the queue. -/
def step : State α → Action α → Option (State α) := Interleave.step start act

/-- Nothing was sent. -/
def init : State α := { shared := QueueWorld.empty, activations := [] }

/-- Reachability from the empty queue, whatever is sent and however the handlers end. -/
def Reachable (s : State α) : Prop :=
  Run.Reachable step (Interleave.Action.Inputs fun _ => True) init s

end Queue

end OrderProcessing
