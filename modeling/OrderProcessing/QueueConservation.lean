import OrderProcessing.OutboundEventService
import Mathlib.Tactic.Abel

/-!
# No message is lost or duplicated

A message is moved between the store and the consumers, and every step of a consumer moves at most
one. So the store, what the consumers hold and what they have acknowledged together are always what
was sent, whatever the handlers do.

## Main definitions

* `Queue.held`, `Queue.acknowledged` — the messages in the hands of the consumers
* `Queue.Place`, `Queue.Place.Holds` — where a message can be
* `Queue.Conserved` — the conservation law in one state

## Main results

* `Queue.conserved`
-/

namespace OrderProcessing.Queue

variable {α : Type}

/-! ### Where the messages are -/

/-- The message on which the handler of the activation is running. -/
def Activation.held : Activation α → List (QueueMessage α)
  | .consumer ⟨_, .holding message⟩ => [message]
  | _ => []

/-- The message whose handler has completed. -/
def Activation.acknowledged : Activation α → List (QueueMessage α)
  | .consumer ⟨_, .acknowledged message _⟩ => [message]
  | _ => []

/-- The messages on which a handler is running. -/
def held (s : State α) : Multiset (QueueMessage α) := s.activations.flatMap Activation.held

/-- The messages whose handler has completed. -/
def acknowledged (s : State α) : Multiset (QueueMessage α) :=
  s.activations.flatMap Activation.acknowledged

/-- The messages that wait. -/
def stored (s : State α) : Multiset (QueueMessage α) := s.shared.store.messages

/-- The messages that were ever sent. -/
def sent (s : State α) : Multiset (QueueMessage α) := s.shared.sent

/-- The messages whose handler completes in a step. -/
def completes (s : State α) : Action α → Multiset (QueueMessage α)
  | .resume i (.settled true _) => (s.activations[i]?).elim 0 fun k => k.held
  | _ => 0

/-- The messages that are sent in a step. -/
def sends (s : State α) : Action α → List (QueueMessage α)
  | .resume _ (.sendMessage queueName payload now) => [s.shared.newMessage queueName payload now]
  | _ => []

/-- A position in the store, or an activation by its number. -/
inductive Place
  | stored (j : ℕ)
  | held (i : ℕ)
  | acknowledged (i : ℕ)

/-- The message is there; only a consumer of its queue holds it. -/
def Place.Holds (s : State α) (message : QueueMessage α) : Place → Prop
  | .stored j => s.shared.store.messages[j]? = some message
  | .held i => s.activations[i]? = some (.consumer ⟨message.queueName, .holding message⟩)
  | .acknowledged i => ∃ now,
      s.activations[i]? = some (.consumer ⟨message.queueName, .acknowledged message now⟩)

/-! ### One step -/

/-- The ways a step goes. -/
inductive Steps (s : State α) : Action α → State α → Prop
  | joined : Steps s (.invoke .sender) ⟨s.shared, s.activations ++ [.sender]⟩
  | foundNone {queueName} : Steps s (.invoke (.consumeOne queueName))
      ⟨s.shared, s.activations ++ [.consumer ⟨queueName, .returnedUndefined⟩]⟩
  | took {queueName message store} : message.queueName = queueName →
      (message :: store.messages).Perm s.shared.store.messages →
      Steps s (.invoke (.consumeOne queueName))
        ⟨s.shared.withStore store, s.activations ++ [.consumer ⟨queueName, .holding message⟩]⟩
  | enqueued {i queueName payload now} : s.activations[i]? = some .sender →
      Steps s (.resume i (.sendMessage queueName payload now))
        ⟨s.shared.sendMessage queueName payload now, s.activations.set i .sender⟩
  | completed {i queueName message now} :
      s.activations[i]? = some (.consumer ⟨queueName, .holding message⟩) →
      Steps s (.resume i (.settled true now))
        ⟨s.shared, s.activations.set i (.consumer ⟨queueName, .acknowledged message now⟩)⟩
  | putBack {i queueName message now} :
      s.activations[i]? = some (.consumer ⟨queueName, .holding message⟩) →
      Steps s (.resume i (.settled false now))
        ⟨s.shared.withStore (s.shared.store.enqueue message),
          s.activations.set i (.consumer ⟨queueName, .failed message⟩)⟩

theorem steps {s t : State α} {a : Action α} (h : step s a = some t) : Steps s a t := by
  rcases a with (_ | queueName) | ⟨i, input⟩
  · obtain ⟨w, k, hk, rfl⟩ := Interleave.step_invoke_eq_some.mp h
    obtain ⟨rfl, rfl⟩ := Prod.mk.inj (Option.some.inj hk)
    exact .joined
  · obtain ⟨w, k, hk, rfl⟩ := Interleave.step_invoke_eq_some.mp h
    obtain ⟨rfl, rfl⟩ := Prod.mk.inj (Option.some.inj hk)
    rcases Consumption.start_cases s.shared queueName with heq | ⟨message, store, hname, hperm, heq⟩
    · rw [heq]
      exact .foundNone
    · rw [heq]
      exact .took hname hperm
  · obtain ⟨k, w, k', hi, hact, rfl⟩ := Interleave.step_resume_eq_some.mp h
    rcases k with _ | ⟨queueName, pc⟩
    · rcases input with ⟨queueName, payload, now⟩ | _
      · obtain ⟨rfl, rfl⟩ := Prod.mk.inj (Option.some.inj hact)
        exact .enqueued hi
      · simp [act] at hact
    · rcases input with _ | ⟨succeeded, now⟩
      · simp [act] at hact
      · obtain ⟨r, hr, heq⟩ := Option.map_eq_some_iff.mp hact
        obtain ⟨rfl, rfl⟩ := Prod.mk.inj heq
        obtain ⟨message, rfl, ⟨rfl, hw, hcall⟩ | ⟨rfl, hw, hcall⟩⟩ := Consumption.settle_cases hr
        · rw [hw, hcall]
          exact .completed hi
        · rw [hw, hcall]
          exact .putBack hi

section Steps

variable {s t : State α} {a : Action α}

/-- A new activation adds what it holds. -/
theorem flatMap_append_singleton {β : Type} (content : Activation α → List β)
    (l : List (Activation α)) (k : Activation α) :
    ((l ++ [k]).flatMap content : Multiset β) = l.flatMap content + content k := by
  rw [List.flatMap_append, List.flatMap_singleton, Multiset.coe_add]

/-- An activation that is replaced gives up what it holds, and holds something else. -/
theorem held_set {w : QueueWorld α} {i : ℕ} {k : Activation α} (hi : s.activations[i]? = some k)
    (k' : Activation α) :
    held ⟨w, s.activations.set i k'⟩ + k.held = held s + k'.held :=
  Interleave.flatMap_set Activation.held hi k'

theorem acknowledged_set {w : QueueWorld α} {i : ℕ} {k : Activation α}
    (hi : s.activations[i]? = some k) (k' : Activation α) :
    acknowledged ⟨w, s.activations.set i k'⟩ + k.acknowledged = acknowledged s + k'.acknowledged :=
  Interleave.flatMap_set Activation.acknowledged hi k'

theorem held_append (w : QueueWorld α) (k : Activation α) :
    held ⟨w, s.activations ++ [k]⟩ = held s + k.held :=
  flatMap_append_singleton Activation.held s.activations k

theorem acknowledged_append (w : QueueWorld α) (k : Activation α) :
    acknowledged ⟨w, s.activations ++ [k]⟩ = acknowledged s + k.acknowledged :=
  flatMap_append_singleton Activation.acknowledged s.activations k

/-- A message is acknowledged exactly when its handler completes. -/
theorem Steps.acknowledged_eq (h : Steps s a t) :
    acknowledged t = acknowledged s + completes s a := by
  cases h with
  | joined => rw [acknowledged_append]; rfl
  | foundNone => rw [acknowledged_append]; rfl
  | took => rw [acknowledged_append]; rfl
  | enqueued hi => simpa [Activation.acknowledged, completes] using acknowledged_set hi .sender
  | @completed i queueName message now hi =>
    have hset :=
      acknowledged_set (w := s.shared) hi (.consumer ⟨queueName, .acknowledged message now⟩)
    simpa [Activation.acknowledged, Activation.held, completes, hi] using hset
  | @putBack i queueName message now hi =>
    simpa [Activation.acknowledged, completes] using
      acknowledged_set hi (.consumer ⟨queueName, .failed message⟩)

/-- **One step moves at most one message.** -/
theorem Steps.conserves (h : Steps s a t) (hs : sent s = stored s + held s + acknowledged s) :
    sent t = stored t + held t + acknowledged t := by
  have hack := h.acknowledged_eq
  cases h with
  | joined =>
    rw [hack, held_append]
    calc sent s = stored s + held s + acknowledged s := hs
      _ = stored s + (held s + 0) + (acknowledged s + 0) := by rw [add_zero, add_zero]
  | foundNone =>
    rw [hack, held_append]
    calc sent s = stored s + held s + acknowledged s := hs
      _ = stored s + (held s + 0) + (acknowledged s + 0) := by rw [add_zero, add_zero]
  | @took queueName message store hname hperm =>
    have hstored : stored s = {message} + (store.messages : Multiset (QueueMessage α)) :=
      (Multiset.coe_eq_coe.mpr hperm).symm
    rw [hack, held_append]
    calc sent s
        = {message} + (store.messages : Multiset (QueueMessage α)) + held s + acknowledged s := by
          rw [hs, hstored]
      _ = store.messages + (held s + {message}) + (acknowledged s + 0) := by abel
  | @enqueued i queueName payload now hi =>
    have hheld := held_set (w := s.shared.sendMessage queueName payload now) hi .sender
    rw [hack, add_right_cancel hheld]
    calc sent s + {s.shared.newMessage queueName payload now}
        = stored s + {s.shared.newMessage queueName payload now} + held s
            + (acknowledged s + 0) := by
          rw [hs]; abel
  | @completed i queueName message now hi =>
    have hheld : held ⟨s.shared, s.activations.set i
        (.consumer ⟨queueName, .acknowledged message now⟩)⟩ + {message} = held s + 0 :=
      held_set hi _
    have hcompletes : completes s (.resume i (.settled true now)) = {message} := by
      rw [completes, hi]
      rfl
    rw [hack, hcompletes]
    calc sent s = stored s + (held s + 0) + acknowledged s := by rw [add_zero, hs]
      _ = stored s + held _ + (acknowledged s + {message}) := by rw [← hheld]; abel
  | @putBack i queueName message now hi =>
    have hheld : held ⟨s.shared.withStore (s.shared.store.enqueue message), s.activations.set i
        (.consumer ⟨queueName, .failed message⟩)⟩ + {message} = held s + 0 := held_set hi _
    rw [hack]
    calc sent s = stored s + (held s + 0) + acknowledged s := by rw [add_zero, hs]
      _ = stored s + {message} + held _ + (acknowledged s + 0) := by rw [← hheld]; abel

theorem Steps.sent_eq (h : Steps s a t) : t.shared.sent = s.shared.sent ++ sends s a := by
  cases h with
  | enqueued => rfl
  | _ => exact (List.append_nil _).symm

/-- Messages are numbered as they are sent. -/
theorem Steps.refs (h : Steps s a t)
    (hs : s.shared.sent.map QueueMessage.ref = List.range s.shared.sent.length) :
    t.shared.sent.map QueueMessage.ref = List.range t.shared.sent.length := by
  cases h with
  | @enqueued i queueName payload now =>
    show (s.shared.sent ++ [s.shared.newMessage queueName payload now]).map QueueMessage.ref
      = List.range (s.shared.sent ++ [s.shared.newMessage queueName payload now]).length
    rw [List.map_append, hs, List.length_append, List.length_singleton, List.range_succ]
    rfl
  | _ => exact hs

/-- A consumer holds, or has acknowledged, a message of its own queue. -/
def Activation.OwnQueue (k : Activation α) : Prop :=
  ∀ queueName pc, k = .consumer ⟨queueName, pc⟩ →
    ∀ message ∈ k.held ++ k.acknowledged, message.queueName = queueName

theorem Activation.ownQueue_of_nil {k : Activation α} (h : k.held ++ k.acknowledged = []) :
    k.OwnQueue := by
  intro queueName pc _ message hmem
  rw [h] at hmem
  exact absurd hmem (List.not_mem_nil)

theorem Steps.ownQueue (h : Steps s a t) (hs : ∀ k ∈ s.activations, k.OwnQueue) :
    ∀ k ∈ t.activations, k.OwnQueue := by
  have happend : ∀ k : Activation α, k.OwnQueue → ∀ k' ∈ s.activations ++ [k], k'.OwnQueue := by
    intro k hk k' hk'
    rcases List.mem_append.mp hk' with hk' | hk'
    · exact hs k' hk'
    · rwa [List.mem_singleton.mp hk']
  have hset : ∀ i (k : Activation α), k.OwnQueue → ∀ k' ∈ s.activations.set i k, k'.OwnQueue := by
    intro i k hk k' hk'
    rcases List.mem_or_eq_of_mem_set hk' with hk' | rfl
    · exact hs k' hk'
    · exact hk
  cases h with
  | joined => exact happend _ (Activation.ownQueue_of_nil rfl)
  | foundNone => exact happend _ (Activation.ownQueue_of_nil rfl)
  | @took queueName message store hname _ =>
    refine happend _ ?_
    rintro queueName' pc hk message' hmem
    obtain ⟨rfl, -⟩ := Consumption.mk.inj (Activation.consumer.inj hk)
    rwa [List.mem_singleton.mp hmem]
  | enqueued => exact hset _ _ (Activation.ownQueue_of_nil rfl)
  | @completed i queueName message now hi =>
    refine hset i _ ?_
    rintro queueName' pc hk message' hmem
    obtain ⟨rfl, -⟩ := Consumption.mk.inj (Activation.consumer.inj hk)
    rw [List.mem_singleton.mp hmem]
    exact hs _ (List.mem_of_getElem? hi) queueName (.holding message) rfl message
      (List.mem_singleton_self message)
  | putBack => exact hset _ _ (Activation.ownQueue_of_nil rfl)

end Steps

/-! ### One place for each message -/

section Place

variable {s : State α} {message : QueueMessage α}

theorem Activation.mem_held {k : Activation α} :
    message ∈ k.held ↔ ∃ queueName, k = .consumer ⟨queueName, .holding message⟩ := by
  rcases k with _ | ⟨queueName, pc⟩
  · simp [held]
  · cases pc <;> simp [held, eq_comm]

theorem Activation.mem_acknowledged {k : Activation α} :
    message ∈ k.acknowledged ↔
      ∃ queueName now, k = .consumer ⟨queueName, .acknowledged message now⟩ := by
  rcases k with _ | ⟨queueName, pc⟩
  · simp [acknowledged]
  · cases pc <;> simp [acknowledged, eq_comm]

/-- What the consumers hold or have acknowledged. -/
def Activation.content (k : Activation α) : List (QueueMessage α) := k.held ++ k.acknowledged

/-- An activation that holds or has acknowledged the message is a place. -/
theorem exists_place {i : ℕ} {k : Activation α} (hi : s.activations[i]? = some k)
    (hown : k.OwnQueue) (hmem : message ∈ k.content) :
    Place.Holds s message (.held i) ∨ Place.Holds s message (.acknowledged i) := by
  rcases List.mem_append.mp hmem with hheld | hack
  · obtain ⟨queueName, rfl⟩ := Activation.mem_held.mp hheld
    obtain rfl := hown queueName _ rfl message hmem
    exact Or.inl hi
  · obtain ⟨queueName, now, rfl⟩ := Activation.mem_acknowledged.mp hack
    obtain rfl := hown queueName _ rfl message hmem
    exact Or.inr ⟨now, hi⟩

/-- **A message that was sent once is in exactly one place.** -/
theorem existsUnique_place (hnd : s.shared.sent.Nodup)
    (hconserved : sent s = stored s + held s + acknowledged s)
    (hown : ∀ k ∈ s.activations, k.OwnQueue) (hmem : message ∈ s.shared.sent) :
    ∃! place, Place.Holds s message place := by
  have hperm : s.shared.sent.Perm
      (s.shared.store.messages ++ s.activations.flatMap Activation.content) := by
    have hactivations :=
      List.flatMap_append_perm s.activations Activation.held Activation.acknowledged
    refine List.Perm.trans (Multiset.coe_eq_coe.mp ?_) (hactivations.append_left _)
    rw [← Multiset.coe_add, ← Multiset.coe_add, ← add_assoc]
    exact hconserved
  obtain ⟨hstore, hcalls, hdisjoint⟩ := List.nodup_append'.mp (hperm.nodup_iff.mp hnd)
  -- the activation that holds or has acknowledged the message, if one does
  have hholder : ∀ place, Place.Holds s message place →
      (∃ j, place = .stored j ∧ s.shared.store.messages[j]? = some message) ∨
      ∃ i k, (place = .held i ∨ place = .acknowledged i) ∧ s.activations[i]? = some k ∧
        message ∈ k.content := by
    rintro (j | i | i) hplace
    · exact Or.inl ⟨j, rfl, hplace⟩
    · exact Or.inr ⟨i, _, Or.inl rfl, hplace, List.mem_singleton_self message⟩
    · obtain ⟨now, hi⟩ := hplace
      exact Or.inr ⟨i, _, Or.inr rfl, hi, List.mem_singleton_self message⟩
  have hmem_calls : ∀ {i : ℕ} {k : Activation α}, s.activations[i]? = some k → message ∈ k.content →
      message ∈ s.activations.flatMap Activation.content :=
    fun hi hk => List.mem_flatMap.mpr ⟨_, List.mem_of_getElem? hi, hk⟩
  refine existsUnique_of_exists_of_unique ?_ ?_
  · rcases List.mem_append.mp (hperm.mem_iff.mp hmem) with hmem | hmem
    · obtain ⟨j, hj⟩ := List.mem_iff_getElem?.mp hmem
      exact ⟨.stored j, hj⟩
    · obtain ⟨k, hk, hcontent⟩ := List.mem_flatMap.mp hmem
      obtain ⟨i, hi⟩ := List.mem_iff_getElem?.mp hk
      rcases exists_place hi (hown k hk) hcontent with hplace | hplace
      · exact ⟨_, hplace⟩
      · exact ⟨_, hplace⟩
  · intro place place' hplace hplace'
    rcases hholder place hplace with ⟨j, rfl, hj⟩ | ⟨i, k, hik, hi, hk⟩ <;>
      rcases hholder place' hplace' with ⟨j', rfl, hj'⟩ | ⟨i', k', hik', hi', hk'⟩
    · have hlt := (List.getElem?_eq_some_iff.mp hj).1
      rw [(List.getElem?_inj hlt hstore).mp (hj.trans hj'.symm)]
    · exact absurd (hmem_calls hi' hk') (hdisjoint (List.mem_of_getElem? hj))
    · exact absurd (hmem_calls hi hk) (hdisjoint (List.mem_of_getElem? hj'))
    · obtain rfl := Interleave.index_eq_of_mem hcalls hi hi' hk hk'
      rcases hik with rfl | rfl <;> rcases hik' with rfl | rfl
      · rfl
      · obtain ⟨now, hack⟩ := hplace'
        exact absurd (hplace.symm.trans hack) (by simp)
      · obtain ⟨now, hack⟩ := hplace
        exact absurd (hack.symm.trans hplace') (by simp)
      · rfl

end Place

/-! ### Conservation -/

/-- The conservation law, and what happens to the messages in a state from then on. -/
structure Conserved (s : State α) : Prop where
  sent_eq : sent s = stored s + held s + acknowledged s
  /-- Two sends make two messages. -/
  ref_nodup : (s.shared.sent.map QueueMessage.ref).Nodup
  sent_step : ∀ a t, step s a = some t → t.shared.sent = s.shared.sent ++ sends s a
  place : ∀ message ∈ s.shared.sent, ∃! place, Place.Holds s message place
  acknowledged_step : ∀ a t, step s a = some t → acknowledged t = acknowledged s + completes s a
  /-- What is acknowledged stays acknowledged and never reappears. -/
  acknowledged_stays : ∀ t, Run.Reachable step (Interleave.Action.Inputs fun _ => True) s t →
    ∀ message ∈ acknowledged s, message ∈ acknowledged t ∧ message ∉ stored t ∧ message ∉ held t

variable {s : State α}

theorem Reachable.invariant (h : Reachable s) :
    sent s = stored s + held s + acknowledged s ∧
      s.shared.sent.map QueueMessage.ref = List.range s.shared.sent.length ∧
      ∀ k ∈ s.activations, k.OwnQueue := by
  refine Run.Reachable.invariant (I := fun s => sent s = stored s + held s + acknowledged s ∧
      s.shared.sent.map QueueMessage.ref = List.range s.shared.sent.length ∧
      ∀ k ∈ s.activations, k.OwnQueue) h
    ⟨rfl, rfl, fun _ hk => absurd hk (List.not_mem_nil)⟩ ?_
  rintro u a v ⟨hconserved, hrefs, hown⟩ _ hstep
  have hsteps := steps hstep
  exact ⟨hsteps.conserves hconserved, hsteps.refs hrefs, hsteps.ownQueue hown⟩

theorem acknowledged_mono {t : State α}
    (h : Run.Reachable step (Interleave.Action.Inputs fun _ => True) s t) :
    acknowledged s ≤ acknowledged t :=
  (h.related_of_invariant (I := fun _ => True) (R := fun u v => acknowledged u ≤ acknowledged v)
    trivial (fun _ _ _ _ _ _ => trivial) (fun _ => le_refl _) (fun _ _ _ => le_trans)
    fun u a v _ _ hstep => by rw [(steps hstep).acknowledged_eq]; exact Multiset.le_add_right _ _).2

/-- **No message is lost or duplicated**, and none is handled again once it is acknowledged. -/
theorem conserved (h : Reachable s) : Conserved s := by
  have hnodup : ∀ {s : State α}, Reachable s → (s.shared.sent.map QueueMessage.ref).Nodup := by
    intro s h
    rw [h.invariant.2.1]
    exact List.nodup_range
  obtain ⟨hconserved, -, hown⟩ := h.invariant
  refine ⟨hconserved, hnodup h, fun a t hstep => (steps hstep).sent_eq, fun message => ?_,
    fun a t hstep => (steps hstep).acknowledged_eq, ?_⟩
  · exact existsUnique_place ((hnodup h).of_map _) hconserved hown
  · intro t ht message hmem
    have hack := Multiset.mem_of_le (acknowledged_mono ht) hmem
    have h' : Reachable t := Run.Reachable.trans h ht
    have hnd : (sent t).Nodup := (hnodup h').of_map _
    rw [h'.invariant.1, Multiset.nodup_add, Multiset.nodup_add] at hnd
    refine ⟨hack, fun hstored => ?_, fun hheld => ?_⟩
    · exact Multiset.disjoint_left.mp hnd.2.2 (Multiset.mem_add.mpr (Or.inl hstored)) hack
    · exact Multiset.disjoint_left.mp hnd.2.2 (Multiset.mem_add.mpr (Or.inr hheld)) hack

/-- Two consumers of one queue overlap; one handler throws, the other completes. -/
def overlappingConsumers : List (Action ℕ) :=
  [.invoke .sender, .resume 0 (.sendMessage "q" 7 "t0"), .resume 0 (.sendMessage "q" 8 "t1"),
    .invoke (.consumeOne "q"), .invoke (.consumeOne "q"), .resume 1 (.settled false "t2"),
    .resume 2 (.settled true "t3")]

theorem conserved_overlappingConsumers :
    ∃ s, Run.run step init overlappingConsumers = some s ∧
      s.shared.store.messages.map (fun message => (message.payload, message.sentAt)) = [(7, "t0")] ∧
      Conserved s := by
  have hrun : (Run.run step init overlappingConsumers).map
      (fun s => s.shared.store.messages.map fun message => (message.payload, message.sentAt))
      = some [(7, "t0")] := by decide
  obtain ⟨s, hs, hobs⟩ := Option.map_eq_some_iff.mp hrun
  exact ⟨s, hs, hobs, conserved ⟨_, fun a _ => a.inputs_true, hs⟩⟩

end OrderProcessing.Queue
