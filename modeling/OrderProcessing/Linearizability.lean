import OrderProcessing.Lifecycle

/-!
# `applyStatusUpdate` is linearizable

The abstract service applies a status update in one step: it reads the order, checks for a
duplicate, checks the transition and appends, with no version and no re-read. Every run of the
service contracts to a run of the abstract one with the same collection, in which each completed
update has exactly one step, at the place of one of its own steps.

## Where the steps go

A call that ends at its lookup is linearized there, one that writes is linearized at the write, and
one that loses the race is linearized at the re-read. That the atomic version refuses the update
there, or finds the event, is `StatusUpdate.Prepared`: by then the order has recorded the event or
has reached the status that was asked for.

## Main definitions

* `atomicStatusUpdate` — the update in one step
* `AtomicService.step` — the service in which updates are atomic
* `SameOutcome` — the same order, or errors of the same class

## Main results

* `Service.applyStatusUpdate_linearizable`
-/

namespace OrderProcessing

open OrderRepository

/-! ### The atomic update -/

/-- Read, duplicate check, transition check and append, in one step. -/
def atomicStatusUpdate (P : Platform) (orders : Collection) (orderId : String)
    (input : Option StatusUpdateInput) (now : String) :
    Except ServiceError OrderRecord × Collection :=
  match prepareStatusUpdate P orderId input (findById orders orderId) with
  | .error error => (.error error, orders)
  | .ok (order, none) => (.ok order, orders)
  | .ok (order, some event) =>
    (.ok (pushEvent event event.status now order),
      orders.update (fun o => o.id = orderId) (pushEvent event event.status now) (fun _ => rfl)
        fun _ => rfl)

/-- The only step of an atomic update. A rejected one may have taken effect, as any other operation
of the database. -/
def StatusUpdate.atomicStep (P : Platform) (orders : Collection) (call : StatusUpdate)
    (input : Input) : Option (Reaction StatusUpdate) :=
  match call.pc, input with
  | .lookup, .findOneAndUpdate now answer =>
    let outcome := atomicStatusUpdate P orders call.orderId call.input now
    match answer with
    | .ok => some { orders := outcome.2, call := call.finish outcome.1, effect := none }
    | .lost => some { orders := orders, call := call.finish (.error .storage), effect := none }
    | .landed =>
      some { orders := outcome.2, call := call.finish (.error .storage), effect := none }
  | _, _ => none

/-- One step of a call, where a status update is atomic and the other calls are as they are. -/
def Call.atomicStep (P : Platform) (config : AppConfig) (orders : Collection) (call : Call)
    (input : Input) : Option (Reaction Call) :=
  match call with
  | .applyStatusUpdate c => (c.atomicStep P orders input).map (Reaction.map .applyStatusUpdate)
  | call => call.step P config orders input

namespace AtomicService

/-- One step of a call of this service. -/
def act (P : Platform) (config : AppConfig) (w : World) (call : Call) (input : Input) :
    Option (World × Call) :=
  (call.atomicStep P config w.orders input).map fun r => (w.after r, r.call)

/-- One step of the service in which updates are atomic. -/
def step (P : Platform) (config : AppConfig) :
    Service.State → Service.Action → Option Service.State :=
  Interleave.step Service.start (act P config)

end AtomicService

/-! ### Outcomes -/

/-- The same order, or errors of the same class. -/
def SameOutcome : Except ServiceError OrderRecord → Except ServiceError OrderRecord → Prop
  | .ok order, .ok order' => order = order'
  | .error error, .error error' => error.name = error'.name
  | _, _ => False

theorem SameOutcome.refl (outcome : Except ServiceError OrderRecord) :
    SameOutcome outcome outcome := by
  cases outcome <;> rfl

/-- A running update is matched by one that has not taken its step; a completed one by one with the
same outcome. -/
def StatusUpdate.Matches (call call' : StatusUpdate) : Prop :=
  call'.orderId = call.orderId ∧ call'.input = call.input ∧
    match call.pc with
    | .returned outcome => ∃ outcome', call'.pc = .returned outcome' ∧ SameOutcome outcome outcome'
    | _ => call'.pc = .lookup

/-- Updates match as above, other calls are equal. -/
def Call.Matches : Call → Call → Prop
  | .applyStatusUpdate call, .applyStatusUpdate call' => call.Matches call'
  | call, call' => call = call'

theorem Request.matches (request : Request) : request.call.Matches request.call := by
  cases request with
  | applyStatusUpdate => exact ⟨rfl, rfl, rfl⟩
  | _ => rfl

/-- The step of `call'` that corresponds to an operation of the database in the source. -/
def LinearizedTo (input input' : Input) : Prop :=
  input = input' ∨
    ∃ now answer, input' = .findOneAndUpdate now answer ∧
      (input.databaseAnswers = true → answer = .ok)

/-! ### The three linearization points -/

section Points

variable {P : Platform} {c c' : Collection} {call : StatusUpdate}

/-- At its lookup, if the call ends there. -/
theorem StatusUpdate.atomic_of_lookup (call : StatusUpdate) (now : String) :
    (∃ order event, call.afterLookup P (findById c call.orderId)
      = { call with pc := .append order event }) ∨
    (atomicStatusUpdate P c call.orderId call.input now).2 = c ∧
      call.afterLookup P (findById c call.orderId)
        = call.finish (atomicStatusUpdate P c call.orderId call.input now).1 := by
  rw [afterLookup, atomicStatusUpdate]
  cases hprep : prepareStatusUpdate P call.orderId call.input (findById c call.orderId) with
  | error error => exact Or.inr ⟨rfl, rfl⟩
  | ok prepared =>
    obtain ⟨order, event | event⟩ := prepared
    · exact Or.inr ⟨rfl, rfl⟩
    · exact Or.inl ⟨order, event, rfl⟩

/-- At its write, if the filter matches: the version was not changed, so nothing was. -/
theorem StatusUpdate.atomic_of_append {snapshot updated : OrderRecord} {event : StatusEvent}
    {now : String} (hc : c.WellFormed) (hs : snapshot.WellFormed)
    (hprep : prepareStatusUpdate P call.orderId call.input (some snapshot)
      = .ok (snapshot, some event))
    (hstored : ∃ o, findById c call.orderId = some o ∧ snapshot.Extends o)
    (hwrite : appendStatusEvent c call.orderId event event.status snapshot.version now
      = (some updated, c')) :
    atomicStatusUpdate P c call.orderId call.input now = (.ok updated, c') := by
  obtain ⟨o, ho, hver, hnew, rfl, rfl⟩ := appendStatusEvent_eq_some_iff.mp hwrite
  obtain ⟨o', ho', hext⟩ := hstored
  obtain rfl : o = o' := Option.some.inj (ho.symm.trans ho')
  obtain ⟨-, input, hinput, -, hrank, hid, hstatus, htime⟩ :=
    prepareStatusUpdate_eq_event_iff.mp hprep
  have hsame : o.status = snapshot.status := by
    have hwf := hc.of_findById ho
    rw [hwf.version_eq_rank, hs.version_eq_rank] at hver
    exact OrderStatus.rank_injective (by omega)
  have hprep' : prepareStatusUpdate P call.orderId call.input (findById c call.orderId)
      = .ok (o, some event) := by
    rw [hid] at hnew
    exact prepareStatusUpdate_eq_event_iff.mpr
      ⟨ho, input, hinput, hnew, by rw [hsame, hrank], hid, hstatus, htime⟩
  have hcoll : c.update (fun o => o.id = call.orderId) (pushEvent event event.status now)
      (fun _ => rfl) (fun _ => rfl)
      = (appendStatusEvent c call.orderId event event.status snapshot.version now).2 := by
    refine Collection.ext (UpdateFirst.updateFirst_congr fun a ha => ?_)
    rw [Bool.eq_iff_iff, appendFilter_iff, decide_eq_true_eq]
    refine ⟨fun hid => ?_, And.left⟩
    obtain rfl : o = a := Option.some.inj (ho.symm.trans (hid ▸ findById_of_mem ha))
    exact ⟨hid, hver, hnew⟩
  rw [atomicStatusUpdate, hprep']
  simp only [hcoll]

/-- At its re-read, if it lost the race: the atomic version finds the event, or refuses. -/
theorem StatusUpdate.atomic_of_reread (call : StatusUpdate) (now : String) (hpc : call.pc = .reread)
    (hprep : call.Prepared P c) :
    (atomicStatusUpdate P c call.orderId call.input now).2 = c ∧
      ∃ outcome, call.afterReread (findById c call.orderId) = call.finish outcome ∧
        SameOutcome outcome (atomicStatusUpdate P c call.orderId call.input now).1 := by
  simp only [StatusUpdate.Prepared, hpc] at hprep
  obtain ⟨o, input, ho, hinput, hor⟩ := hprep
  cases hev : o.hasEvent input.eventId with
  | true =>
    have hdup : prepareStatusUpdate P call.orderId call.input (findById c call.orderId)
        = .ok (o, none) :=
      prepareStatusUpdate_eq_duplicate_iff.mpr ⟨ho, input, hinput, hev⟩
    have hatomic : atomicStatusUpdate P c call.orderId call.input now = (.ok o, c) := by
      rw [atomicStatusUpdate, hdup]
    have hreread : call.afterReread (findById c call.orderId) = call.finish (.ok o) := by
      simp only [afterReread, ho, hinput, hev, if_true]
    rw [hatomic, hreread]
    exact ⟨rfl, _, rfl, rfl⟩
  | false =>
    have hrank : input.status.rank ≤ o.status.rank := by simpa [hev] using hor
    have hrefused : canTransition o.status input.status = false := by
      rw [← Bool.not_eq_true, canTransition_iff]
      omega
    have hconflict : ∃ message, prepareStatusUpdate P call.orderId call.input
        (findById c call.orderId) = .error (.statusConflict message) := by
      simp only [prepareStatusUpdate, ho, hinput, hev, hrefused, Bool.not_false, if_true,
        Bool.false_eq_true, if_false]
      exact ⟨_, rfl⟩
    obtain ⟨message, hconflict⟩ := hconflict
    have hatomic : atomicStatusUpdate P c call.orderId call.input now
        = (.error (.statusConflict message), c) := by
      rw [atomicStatusUpdate, hconflict]
    rw [hatomic]
    refine ⟨rfl, .error (.statusConflict "Concurrent modification detected while updating status"),
      ?_, rfl⟩
    simp only [afterReread, ho, hinput, hev, Bool.false_eq_true, if_false]

end Points

/-! ### One step of a call -/

section Step

variable {P : Platform} {config : AppConfig} {c : Collection} {input : Input}

/-- Every step of an update is its linearization point, or changes nothing and has no counterpart.
-/
theorem StatusUpdate.Matches.step {call call' : StatusUpdate} {r : Reaction StatusUpdate}
    (hc : c.WellFormed) (hprep : call.Prepared P c) (hm : call.Matches call')
    (hstep : StatusUpdate.Steps P c call input r) :
    (r.orders = c ∧ r.effect = none ∧ r.call.Matches call') ∨
      ∃ input' r', LinearizedTo input input' ∧ call'.atomicStep P c input' = some r' ∧
        r'.orders = r.orders ∧ r'.effect = r.effect ∧ r.call.Matches r'.call := by
  obtain ⟨orderId, update, pc⟩ := call
  obtain ⟨orderId', update', pc'⟩ := call'
  obtain ⟨rfl, rfl, hpc'⟩ := hm
  cases hstep with
  | lookedUp hpc =>
    obtain rfl := hpc
    obtain rfl := hpc'
    rcases atomic_of_lookup (P := P) (c := c) ⟨orderId', update', .lookup⟩ "" with
      ⟨order, event, heq⟩ | ⟨horders, heq⟩
    · exact Or.inl ⟨rfl, rfl, by rw [heq]; exact ⟨rfl, rfl, rfl⟩⟩
    · refine Or.inr ⟨.findOneAndUpdate "" .ok, _, Or.inr ⟨_, _, rfl, fun _ => rfl⟩, rfl, horders,
        rfl, ?_⟩
      rw [heq]
      exact ⟨rfl, rfl, _, rfl, SameOutcome.refl _⟩
  | @appended order event updated orders' now hpc hwrite =>
    obtain rfl := hpc
    obtain rfl := hpc'
    obtain ⟨hs, hprep, hstored⟩ := hprep
    have hatomic := atomic_of_append hc hs hprep hstored hwrite
    refine Or.inr ⟨.findOneAndUpdate now .ok, _, Or.inr ⟨_, _, rfl, fun _ => rfl⟩, rfl,
      congrArg Prod.snd hatomic, rfl, rfl, rfl, _, rfl, ?_⟩
    rw [show (atomicStatusUpdate P c orderId' update' now).1 = _ from congrArg Prod.fst hatomic]
    exact SameOutcome.refl _
  | lostRace hpc =>
    obtain rfl := hpc
    exact Or.inl ⟨rfl, rfl, rfl, rfl, hpc'⟩
  | @landed order event updated orders' now hpc hwrite =>
    obtain rfl := hpc
    obtain rfl := hpc'
    obtain ⟨hs, hprep, hstored⟩ := hprep
    have hatomic := atomic_of_append hc hs hprep hstored hwrite
    exact Or.inr ⟨.findOneAndUpdate now .landed, _,
      Or.inr ⟨_, _, rfl, fun h => absurd h (by simp [Input.databaseAnswers])⟩, rfl,
      congrArg Prod.snd hatomic, rfl, rfl, rfl, _, rfl, SameOutcome.refl _⟩
  | reread hpc =>
    obtain rfl := hpc
    obtain rfl := hpc'
    obtain ⟨horders, outcome, heq, hsame⟩ :=
      atomic_of_reread ⟨orderId', update', .reread⟩ "" rfl hprep
    refine Or.inr ⟨.findOneAndUpdate "" .ok, _, Or.inr ⟨_, _, rfl, fun _ => rfl⟩, rfl, horders, rfl,
      ?_⟩
    rw [heq]
    exact ⟨rfl, rfl, _, rfl, hsame⟩
  | failed hanswer hpc =>
    have hlookup : pc' = .lookup := by
      cases pc with
      | returned outcome => simp [completed] at hpc
      | _ => exact hpc'
    obtain rfl := hlookup
    exact Or.inr ⟨.findOneAndUpdate "" .lost, _,
      Or.inr ⟨_, _, rfl, fun h => absurd h (by simp [hanswer])⟩, rfl, rfl, rfl, rfl, rfl, _, rfl,
      SameOutcome.refl _⟩

theorem Call.Matches.step {call call' : Call} {r : Reaction Call} (hc : c.WellFormed)
    (hprep : call.Prepared P c) (hm : call.Matches call')
    (hstep : call.step P config c input = some r) :
    (r.orders = c ∧ r.effect = none ∧ r.call.Matches call') ∨
      ∃ input' r', LinearizedTo input input' ∧ call'.atomicStep P config c input' = some r' ∧
        r'.orders = r.orders ∧ r'.effect = r.effect ∧ r.call.Matches r'.call := by
  cases Call.steps hstep with
  | applyStatusUpdate hsteps =>
    cases call' with
    | applyStatusUpdate call' =>
      rcases StatusUpdate.Matches.step hc hprep hm hsteps with h | ⟨input', r', hto, hr', h⟩
      · exact Or.inl h
      · exact Or.inr ⟨input', _, hto, Option.map_eq_some_iff.mpr ⟨r', hr', rfl⟩, h⟩
    | _ => exact absurd hm (by simp [Call.Matches])
  | _ =>
    obtain rfl := hm
    exact Or.inr ⟨input, _, Or.inl rfl, hstep, rfl, rfl, rfl⟩

/-- An update that the database does not fail writes only if it returns the order, and settles a
lost race as the atomic version would at the re-read. -/
structure StatusUpdate.Settles (P : Platform) (c : Collection) (call : StatusUpdate)
    (r : Reaction StatusUpdate) : Prop where
  wrote : r.orders ≠ c → ∃ order, r.call.pc = .returned (.ok order)
  found : call.pc = .reread → ∀ o update, findById c call.orderId = some o →
    call.input = some update → o.hasEvent update.eventId = true → r.call.pc = .returned (.ok o)
  reread : call.pc = .reread → ∀ now,
    (atomicStatusUpdate P c call.orderId call.input now).2 = c ∧
      ∃ outcome, r.call.pc = .returned outcome ∧
        SameOutcome outcome (atomicStatusUpdate P c call.orderId call.input now).1

theorem StatusUpdate.Steps.settles {call : StatusUpdate} {r : Reaction StatusUpdate}
    (hprep : call.Prepared P c) (hanswers : input.databaseAnswers = true)
    (hstep : StatusUpdate.Steps P c call input r) : call.Settles P c r := by
  cases hstep with
  | lookedUp hpc => exact ⟨fun h => absurd rfl h, by simp [hpc], by simp [hpc]⟩
  | appended hpc => exact ⟨fun _ => ⟨_, rfl⟩, by simp [hpc], by simp [hpc]⟩
  | lostRace hpc => exact ⟨fun h => absurd rfl h, by simp [hpc], by simp [hpc]⟩
  | landed => simp [Input.databaseAnswers] at hanswers
  | reread hpc =>
    refine ⟨fun h => absurd rfl h, fun _ o update ho hupdate hev => ?_, fun _ now => ?_⟩
    · simp only [afterReread, ho, hupdate, hev, if_true, finish]
    · obtain ⟨horders, outcome, heq, hsame⟩ := atomic_of_reread call now hpc hprep
      exact ⟨horders, outcome, by rw [heq]; rfl, hsame⟩
  | failed hfailed => simp [hfailed] at hanswers

end Step

/-! ### Whole runs -/

namespace Service

/-- `bs` is a run of the abstract service that linearizes the run `as` to `s`. -/
structure Linearizes (P : Platform) (config : AppConfig) (as : List Action) (s : State)
    (bs : List Action) (s' : State) : Prop where
  /-- The steps of `bs` are steps of `as`, at their places. -/
  contracts : Run.Contracts (Interleave.Action.Translates LinearizedTo)
    Interleave.Action.IsResume as bs
  run : Run.run (AtomicService.step P config) init bs = some s'
  /-- The same collection, and the same messages and requests sent. -/
  shared : s'.shared = s.shared
  /-- The same outcome of every call. -/
  outcomes : List.Forall₂ Call.Matches s.activations s'.activations
  /-- A completed update has exactly one step. -/
  once : ∀ i call, s.activations[i]? = some (.applyStatusUpdate call) →
    bs.countP (Interleave.Action.isResume i) = if call.completed then 1 else 0

variable {P : Platform} {config : AppConfig} {as : List Action} {s : State}

theorem Matches_act {w w₁ : World} {call call' call₁ : Call} {input : Input}
    (hw : w.orders.WellFormed) (hprep : call.Prepared P w.orders) (hm : call.Matches call')
    (h : act P config w call input = some (w₁, call₁)) :
    (w₁ = w ∧ call₁.Matches call') ∨
      ∃ input' call₁', LinearizedTo input input' ∧
        AtomicService.act P config w call' input' = some (w₁, call₁') ∧ call₁.Matches call₁' := by
  obtain ⟨r, hr, heq⟩ := Option.map_eq_some_iff.mp h
  obtain ⟨rfl, rfl⟩ := Prod.mk.inj heq
  rcases Call.Matches.step hw hprep hm hr with
    ⟨horders, heffect, hm'⟩ | ⟨input', r', hto, hr', horders, heffect, hm'⟩
  · refine Or.inl ⟨?_, hm'⟩
    simp [World.after, horders, heffect]
  · refine Or.inr ⟨input', r'.call, hto, Option.map_eq_some_iff.mpr ⟨r', hr', ?_⟩, hm'⟩
    simp [World.after, horders, heffect]

/-- The steps that an atomic update has taken. -/
def stepsTaken : Call → ℕ
  | .applyStatusUpdate call => if call.completed then 1 else 0
  | _ => 0

/-- An atomic update takes one step, and then it is completed. -/
theorem atomicStep_completes {w w' : World} {call call' : Call} {input : Input}
    (h : AtomicService.act P config w call input = some (w', call'))
    (hq : ∃ c, call' = .applyStatusUpdate c) :
    (∃ c, call = .applyStatusUpdate c) ∧ stepsTaken call' = stepsTaken call + 1 := by
  obtain ⟨r, hr, heq⟩ := Option.map_eq_some_iff.mp h
  obtain ⟨-, rfl⟩ := Prod.mk.inj heq
  cases call with
  | applyStatusUpdate c =>
    obtain ⟨r₀, hr₀, rfl⟩ := Option.map_eq_some_iff.mp hr
    refine ⟨⟨c, rfl⟩, ?_⟩
    unfold StatusUpdate.atomicStep at hr₀
    split at hr₀
    · next now answer hpc =>
      cases answer <;> cases hr₀ <;>
        simp [Reaction.map, stepsTaken, StatusUpdate.completed, StatusUpdate.finish, hpc]
    · simp at hr₀
  | createOrder c =>
    obtain ⟨r, -, rfl⟩ := Option.map_eq_some_iff.mp hr
    exact absurd hq (by simp [Reaction.map])
  | validateStatusUpdate c =>
    obtain ⟨r, -, rfl⟩ := Option.map_eq_some_iff.mp hr
    exact absurd hq (by simp [Reaction.map])
  | handleOrderCreatedEvent c =>
    obtain ⟨r, -, rfl⟩ := Option.map_eq_some_iff.mp hr
    exact absurd hq (by simp [Reaction.map])

theorem Linearizes.once_of_run {bs : List Action} {s' : State}
    (hrun : Run.run (AtomicService.step P config) init bs = some s')
    (hm : List.Forall₂ Call.Matches s.activations s'.activations) {i : ℕ} {call : StatusUpdate}
    (hcall : s.activations[i]? = some (.applyStatusUpdate call)) :
    bs.countP (Interleave.Action.isResume i) = if call.completed then 1 else 0 := by
  obtain ⟨call', hcall', hmatch⟩ := Interleave.forall₂_getElem? hm hcall
  cases call' with
  | applyStatusUpdate call' =>
    have hstart : ∀ {w w' : World} {request : Request} {k : Call},
        start w request = some (w', k) → (∃ c, k = .applyStatusUpdate c) → stepsTaken k = 0 := by
      rintro w w' request k h -
      obtain ⟨-, rfl⟩ := Prod.mk.inj (Option.some.inj h)
      cases request <;> rfl
    have hcount := (Interleave.countP_isResume (q := fun k => ∃ c, k = .applyStatusUpdate c)
      hstart atomicStep_completes hrun hcall' ⟨call', rfl⟩).2
    have hsame : call'.completed = call.completed := by
      obtain ⟨orderId, update, pc⟩ := call
      obtain ⟨-, -, hpc⟩ := hmatch
      cases pc with
      | returned outcome =>
        obtain ⟨outcome', hpc', -⟩ := hpc
        simp [StatusUpdate.completed, hpc']
      | _ => simp [StatusUpdate.completed, show call'.pc = .lookup from hpc]
    simpa [init, initFrom, stepsTaken, hsame] using hcount
  | _ => exact absurd hmatch (by simp [Call.Matches])

/-- Every step of an update, as `StatusUpdate.Settles` says it. -/
def SettlesAt (P : Platform) (s : State) : Action → Prop
  | .invoke _ => True
  | .resume i input => ∀ call r, s.activations[i]? = some (.applyStatusUpdate call) →
      input.databaseAnswers = true → call.step P s.shared.orders input = some r →
      call.Settles P s.shared.orders r

/-- **`applyStatusUpdate` is linearizable.** Every run contracts to a run in which updates are
atomic, with the same collection, the same outcome of every call, and exactly one step for each
completed update, at the place of one of its own. -/
theorem applyStatusUpdate_linearizable (hrun : Run.run (step P config) init as = some s) :
    (∃ bs s', Linearizes P config as s bs s') ∧
      Run.Along (step P config) (SettlesAt P) init as := by
  constructor
  · obtain ⟨bs, s', hbs, hrun', hshared, hm⟩ := Interleave.simulation (R := LinearizedTo)
      (M := Call.Matches) start (AtomicService.act P config) (relyGuarantee P config fun _ => True)
      (fun {w request w' k} h => ⟨k, h, (Prod.mk.inj (Option.some.inj h)).2 ▸ request.matches⟩)
      (fun hw hprep hm _ h => Matches_act hw hprep hm h)
      hrun (fun a _ => a.inputs_true) Collection.wellFormed_empty
      (fun _ h => absurd h List.not_mem_nil) (show init.shared = init.shared from rfl) .nil
    exact ⟨bs, s', hbs, hrun', hshared, hm, fun i call => Linearizes.once_of_run hrun' hm⟩
  · refine (Run.run_along (I := fun u => u.shared.orders.WellFormed ∧
      ∀ call ∈ u.activations, call.Prepared P u.shared.orders) (P := fun _ _ => True)
      (p := fun _ => True) hrun (fun _ _ => trivial)
      ⟨Collection.wellFormed_empty, fun _ h => absurd h List.not_mem_nil⟩ ?_ ?_).2
    · exact Run.along_true
    · rintro u a v hu - - hstep
      refine ⟨((relyGuarantee P config fun _ => True).step a.inputs_true hu.1 hu.2 hstep).1, ?_⟩
      cases a with
      | invoke request => trivial
      | resume i input =>
        intro call r hcall hanswers hr
        exact StatusUpdate.Steps.settles (hu.2 _ (List.mem_of_getElem? hcall)) hanswers
          (StatusUpdate.steps hr)

theorem applyStatusUpdate_linearizable_shippedRace :
    ∃ s, Run.run (step .reference .default) init (shippedRace ++ [.resume 1 (.find .ok)]) = some s ∧
      s.activations.map Call.errorName = [none, some "StatusConflictError", none, none] ∧
      (∃ bs s', Linearizes .reference .default (shippedRace ++ [.resume 1 (.find .ok)]) s bs s') ∧
      Run.Along (step .reference .default) (SettlesAt .reference) init
        (shippedRace ++ [.resume 1 (.find .ok)]) := by
  have hrun : (Run.run (step .reference .default) init (shippedRace ++ [.resume 1 (.find .ok)])).map
      (fun s => s.activations.map Call.errorName)
      = some [none, some "StatusConflictError", none, none] := by decide
  obtain ⟨s, hs, hnames⟩ := Option.map_eq_some_iff.mp hrun
  exact ⟨s, hs, hnames, applyStatusUpdate_linearizable hs⟩

end Service

end OrderProcessing
