import OrderProcessing.ForMathlib.Run
import Mathlib.Algebra.BigOperators.Group.List.Basic
import Mathlib.Algebra.BigOperators.Group.Multiset.Basic
import Mathlib.Algebra.GroupWithZero.Nat
import Mathlib.Data.List.Forall2

/-!
# Interleaved activations over a shared state

A program of many running activations that share one state: an action either starts an activation,
or lets one activation take one atomic step. Activations are numbered in the order in which they
start, and a finished activation stays in the list, so its result can be spoken about.

## Rely and guarantee

The rule that makes such a system tractable is `Interleave.invariant`. Each activation's own
invariant `J` may mention the shared state, which the other activations change; it survives their
steps because every step respects a relation `G` on shared states, and `J` is stable under `G`.
Proving it takes one look at each kind of step, and none at pairs of activations.

## Main results

* `Interleave.invariant` — the rely–guarantee rule
* `Interleave.related` — two shared states of one run are related by the guarantee
* `Interleave.image` — projecting the shared state and the activations
* `Interleave.simulation` — a run contracts to one whose activations take fewer steps
* `Interleave.countP_isResume` — how many steps of one activation a run contains
* `Interleave.countP_isResume_le` — how many it can contain, from a potential
* `Interleave.sum_map_set`, `Interleave.flatMap_set` — how a total over all activations changes in
  one step
* `Interleave.exists_perm_forall₂` — each activation that holds something has an item of its own
* `Interleave.Balanced.reachable` — a conservation law from the balance of one step
* `Interleave.Bounded.reachable` — a bound on a total, from one step
* `Interleave.Originates.reachable` — every item of the shared state has an activation that made it
* `Interleave.exists_getElem?` — what an activation never loses
* `Interleave.of_getElem?` — what holds of an activation from its start on
-/

namespace Interleave

open Run

/-- The shared state and the activations started so far. -/
structure State (σ κ : Type*) where
  shared : σ
  activations : List κ

/-- Start an activation, or let activation `i` take a step. -/
inductive Action (ρ ι : Type*)
  | invoke (request : ρ)
  | resume (i : ℕ) (input : ι)

variable {σ κ ρ ι σ' κ' ρ' ι' : Type*}

/-- One step of the system, from how an activation starts and how it steps. -/
def step (start : σ → ρ → Option (σ × κ)) (act : σ → κ → ι → Option (σ × κ)) (s : State σ κ) :
    Action ρ ι → Option (State σ κ)
  | .invoke request =>
    (start s.shared request).map fun r =>
      { shared := r.1, activations := s.activations ++ [r.2] }
  | .resume i input =>
    (s.activations[i]?).bind fun k =>
      (act s.shared k input).map fun r =>
        { shared := r.1, activations := s.activations.set i r.2 }

variable {start : σ → ρ → Option (σ × κ)} {act : σ → κ → ι → Option (σ × κ)}
  {start' : σ' → ρ' → Option (σ' × κ')} {act' : σ' → κ' → ι' → Option (σ' × κ')}
  {s t : State σ κ}

theorem step_invoke_eq_some {request : ρ} :
    step start act s (.invoke request) = some t ↔
      ∃ w k, start s.shared request = some (w, k) ∧
        t = { shared := w, activations := s.activations ++ [k] } := by
  simp only [step, Option.map_eq_some_iff, Prod.exists]
  constructor
  · rintro ⟨w, k, h, rfl⟩
    exact ⟨w, k, h, rfl⟩
  · rintro ⟨w, k, h, rfl⟩
    exact ⟨w, k, h, rfl⟩

theorem step_resume_eq_some {i : ℕ} {input : ι} :
    step start act s (.resume i input) = some t ↔
      ∃ k w k', s.activations[i]? = some k ∧ act s.shared k input = some (w, k') ∧
        t = { shared := w, activations := s.activations.set i k' } := by
  simp only [step, Option.bind_eq_some_iff, Option.map_eq_some_iff, Prod.exists]
  constructor
  · rintro ⟨k, hk, w, k', h, rfl⟩
    exact ⟨k, w, k', hk, h, rfl⟩
  · rintro ⟨k, w, k', hk, h, rfl⟩
    exact ⟨k, hk, w, k', h, rfl⟩

/-- An activation after an invocation was there before, or it is the one that has started. -/
theorem getElem?_append_cases {l : List κ} {i : ℕ} {k k' : κ} (h : (l ++ [k])[i]? = some k') :
    l[i]? = some k' ∨ (i = l.length ∧ k' = k) := by
  rcases Nat.lt_or_ge i l.length with hlt | hge
  · rw [List.getElem?_append_left hlt] at h
    exact Or.inl h
  · rw [List.getElem?_append_right hge, List.getElem?_singleton] at h
    split at h
    · exact Or.inr ⟨by omega, (Option.some.inj h).symm⟩
    · simp at h

/-- An activation keeps its number when another one starts. -/
theorem getElem?_append_of_some {l : List κ} {i : ℕ} {k : κ} (h : l[i]? = some k) (k' : κ) :
    (l ++ [k'])[i]? = some k := by
  rwa [List.getElem?_append_left (List.getElem?_eq_some_iff.mp h).1]

/-- An activation after a step is the one that has stepped, or it was there before. -/
theorem getElem?_set_cases {l : List κ} {i j : ℕ} {k k' : κ} (h : (l.set i k)[j]? = some k') :
    (j = i ∧ k' = k) ∨ (j ≠ i ∧ l[j]? = some k') := by
  rw [List.getElem?_set] at h
  split at h
  · next hij =>
    split at h
    · exact Or.inl ⟨hij.symm, (Option.some.inj h).symm⟩
    · simp at h
  · next hij => exact Or.inr ⟨Ne.symm hij, h⟩

/-- The activation that has stepped. -/
theorem getElem?_set_of_some {l : List κ} {i : ℕ} {k : κ} (h : l[i]? = some k) (k' : κ) :
    (l.set i k')[i]? = some k' :=
  List.getElem?_set_self (List.getElem?_eq_some_iff.mp h).1

theorem mem_set_of_some {l : List κ} {i : ℕ} {k : κ} (h : l[i]? = some k) (k' : κ) :
    k' ∈ l.set i k' :=
  List.mem_of_getElem? (getElem?_set_of_some h k')

/-- An activation that stays as it is. -/
theorem set_of_getElem? {l : List κ} {i : ℕ} {k : κ} (h : l[i]? = some k) : l.set i k = l := by
  obtain ⟨hi, hget⟩ := List.getElem?_eq_some_iff.mp h
  rw [← hget]
  exact List.set_getElem_self hi

/-- An activation that is not the one replaced is still there. -/
theorem mem_set_of_ne {l : List κ} {i : ℕ} {k k' k'' : κ} (hk' : k' ∈ l) (hk : l[i]? = some k)
    (hne : k' ≠ k) : k' ∈ l.set i k'' := by
  obtain ⟨j, hj⟩ := List.mem_iff_getElem?.mp hk'
  have hij : i ≠ j := by
    rintro rfl
    exact hne (Option.some.inj (hj.symm.trans hk))
  exact List.mem_of_getElem? (by rw [List.getElem?_set_ne hij, hj])

/-! ### Rely and guarantee -/

/-- The obligations of the rely–guarantee rule, for actions satisfying `p`. -/
structure RelyGuarantee (start : σ → ρ → Option (σ × κ)) (act : σ → κ → ι → Option (σ × κ))
    (p : ι → Prop) (K : σ → Prop) (J : σ → κ → Prop) (G : σ → σ → Prop) : Prop where
  /-- Starting an activation keeps `K`, respects `G` and gives the activation its invariant. -/
  start : ∀ {w request w' k}, K w → start w request = some (w', k) → K w' ∧ G w w' ∧ J w' k
  /-- So does each step, from the activation's invariant. -/
  act : ∀ {w k input w' k'}, K w → J w k → p input → act w k input = some (w', k') →
    K w' ∧ G w w' ∧ J w' k'
  /-- The invariant of an activation survives what the others do. -/
  stable : ∀ {w w' k}, K w → K w' → G w w' → J w k → J w' k

/-- The actions whose inputs satisfy `p`. -/
def Action.Inputs (p : ι → Prop) : Action ρ ι → Prop
  | .invoke _ => True
  | .resume _ input => p input

instance {p : ι → Prop} [DecidablePred p] : DecidablePred (Action.Inputs (ρ := ρ) p)
  | .invoke _ => isTrue trivial
  | .resume _ input => inferInstanceAs (Decidable (p input))

theorem Action.inputs_true (a : Action ρ ι) : a.Inputs fun _ => True := by
  cases a <;> trivial

/-- One step keeps the shared invariant and every activation's, and respects the guarantee. -/
theorem RelyGuarantee.step {p : ι → Prop} {K : σ → Prop} {J : σ → κ → Prop} {G : σ → σ → Prop}
    (h : RelyGuarantee start act p K J G) {a : Action ρ ι} (ha : a.Inputs p)
    (hK : K s.shared) (hJ : ∀ k ∈ s.activations, J s.shared k)
    (hstep : Interleave.step start act s a = some t) :
    (K t.shared ∧ ∀ k ∈ t.activations, J t.shared k) ∧ G s.shared t.shared := by
  cases a with
  | invoke request =>
    obtain ⟨w, k, hstart, rfl⟩ := step_invoke_eq_some.mp hstep
    obtain ⟨hKw, hG, hJk⟩ := h.start hK hstart
    refine ⟨⟨hKw, ?_⟩, hG⟩
    intro k' hk'
    rcases List.mem_append.mp hk' with hk' | hk'
    · exact h.stable hK hKw hG (hJ k' hk')
    · obtain rfl := List.mem_singleton.mp hk'
      exact hJk
  | resume i input =>
    obtain ⟨k, w, k', hk, hact, rfl⟩ := step_resume_eq_some.mp hstep
    obtain ⟨hKw, hG, hJk⟩ := h.act hK (hJ k (List.mem_of_getElem? hk)) ha hact
    refine ⟨⟨hKw, ?_⟩, hG⟩
    intro k'' hk''
    rcases List.mem_or_eq_of_mem_set hk'' with hk'' | rfl
    · exact h.stable hK hKw hG (hJ k'' hk'')
    · exact hJk

/-- **The rely–guarantee rule.** -/
theorem invariant {p : ι → Prop} {K : σ → Prop} {J : σ → κ → Prop} {G : σ → σ → Prop}
    (h : RelyGuarantee start act p K J G)
    (hr : Reachable (Interleave.step start act) (Action.Inputs p) s t)
    (hK : K s.shared) (hJ : ∀ k ∈ s.activations, J s.shared k) :
    K t.shared ∧ ∀ k ∈ t.activations, J t.shared k :=
  hr.invariant (I := fun u => K u.shared ∧ ∀ k ∈ u.activations, J u.shared k) ⟨hK, hJ⟩
    fun _ _ _ hu ha hstep => (h.step ha hu.1 hu.2 hstep).1

/-- The shared states of one run are related by the guarantee. -/
theorem related {p : ι → Prop} {K : σ → Prop} {J : σ → κ → Prop} {G : σ → σ → Prop}
    (h : RelyGuarantee start act p K J G) (hrefl : ∀ w, G w w)
    (htrans : ∀ u v w, G u v → G v w → G u w)
    (hr : Reachable (Interleave.step start act) (Action.Inputs p) s t)
    (hK : K s.shared) (hJ : ∀ k ∈ s.activations, J s.shared k) : G s.shared t.shared :=
  (hr.related_of_invariant (I := fun u => K u.shared ∧ ∀ k ∈ u.activations, J u.shared k)
    (R := fun u v => G u.shared v.shared) ⟨hK, hJ⟩
    (fun _ _ _ hu ha hstep => (h.step ha hu.1 hu.2 hstep).1) (fun u => hrefl u.shared)
    (fun u v w => htrans u.shared v.shared w.shared)
    fun _ _ _ hu ha hstep => (h.step ha hu.1 hu.2 hstep).2).2

/-! ### Projections -/

/-- Project the shared state and every activation. -/
def State.map (f : σ → σ') (g : κ → κ') (s : State σ κ) : State σ' κ' where
  shared := f s.shared
  activations := s.activations.map g

/-- When starting projects to starting, and a step to a step or to nothing, reachability projects.
-/
theorem image {p : ι → Prop} {p' : ι' → Prop} (f : σ → σ') (g : κ → κ')
    (hstart : ∀ w request w' k, start w request = some (w', k) →
      ∃ request', start' (f w) request' = some (f w', g k))
    (hact : ∀ w k input w' k', p input → act w k input = some (w', k') →
      (f w' = f w ∧ g k' = g k) ∨
        ∃ input', p' input' ∧ act' (f w) (g k) input' = some (f w', g k'))
    (hr : Reachable (step start act) (Action.Inputs p) s t) :
    Reachable (step start' act') (Action.Inputs p') (s.map f g) (t.map f g) := by
  refine hr.image (State.map f g) fun u a v ha hstep => ?_
  cases a with
  | invoke request =>
    obtain ⟨w, k, hw, rfl⟩ := step_invoke_eq_some.mp hstep
    obtain ⟨request', hrequest'⟩ := hstart _ _ _ _ hw
    refine Or.inr ⟨.invoke request', trivial, step_invoke_eq_some.mpr ⟨_, _, hrequest', ?_⟩⟩
    simp [State.map]
  | resume i input =>
    obtain ⟨k, w, k', hk, hw, rfl⟩ := step_resume_eq_some.mp hstep
    have hgk : (u.map f g).activations[i]? = some (g k) := by simp [State.map, hk]
    rcases hact _ _ _ _ _ ha hw with ⟨hf, hg⟩ | ⟨input', hp', hstep'⟩
    · refine Or.inl ?_
      have hset : (u.activations.map g).set i (g k) = u.activations.map g := set_of_getElem? hgk
      simp [State.map, hf, hg, hset]
    · refine Or.inr ⟨.resume i input', hp', step_resume_eq_some.mpr ⟨_, _, _, hgk, hstep', ?_⟩⟩
      simp [State.map]

/-! ### Simulation -/

section Simulation

variable {M : κ → κ' → Prop} {l : List κ} {l' : List κ'} {i : ℕ} {k : κ} {k' : κ'}

theorem forall₂_getElem? (h : List.Forall₂ M l l') (hk : l[i]? = some k) :
    ∃ k', l'[i]? = some k' ∧ M k k' := by
  induction h generalizing i with
  | nil => simp at hk
  | cons hM _ ih =>
    cases i with
    | zero =>
      obtain rfl := Option.some.inj hk
      exact ⟨_, rfl, hM⟩
    | succ i => exact ih hk

theorem forall₂_set (h : List.Forall₂ M l l') (hM : M k k') :
    List.Forall₂ M (l.set i k) (l'.set i k') := by
  induction h generalizing i with
  | nil => exact .nil
  | cons hM' h ih =>
    cases i with
    | zero => exact .cons hM h
    | succ i => exact .cons hM' ih

/-- The same activation takes a step, with inputs related by `R`; requests are kept. -/
inductive Action.Translates (R : ι → ι' → Prop) : Action ρ ι → Action ρ ι' → Prop
  | invoke (request : ρ) : Translates R (.invoke request) (.invoke request)
  | resume (j : ℕ) {input input'} : R input input' →
      Translates R (.resume j input) (.resume j input')

/-- The action is a step, not a start. -/
def Action.IsResume : Action ρ ι → Prop
  | .invoke _ => False
  | .resume _ _ => True

/-- The simulation relation: the invariant, equal shared states and matching activations. -/
def Related (K : σ → Prop) (J : σ → κ → Prop) (M : κ → κ' → Prop) (u : State σ κ)
    (u' : State σ κ') : Prop :=
  (K u.shared ∧ ∀ k ∈ u.activations, J u.shared k) ∧ u'.shared = u.shared ∧
    List.Forall₂ M u.activations u'.activations

/-- **Simulation of activations that take fewer steps.** The two systems have the same shared state
and the same requests. If each step of an activation is matched by one step of its counterpart, or
leaves the shared state alone and needs no step at all, then a run of the first system contracts to
a run of the second with the same shared state. -/
theorem simulation (start' : σ → ρ → Option (σ × κ')) (act' : σ → κ' → ι' → Option (σ × κ'))
    {p : ι → Prop} {R : ι → ι' → Prop} {K : σ → Prop} {J : σ → κ → Prop} {G : σ → σ → Prop}
    (h : RelyGuarantee start act p K J G)
    (hstart : ∀ {w request w' k}, start w request = some (w', k) →
      ∃ k', start' w request = some (w', k') ∧ M k k')
    (hact : ∀ {w k k' input w₁ k₁}, K w → J w k → M k k' → p input →
      act w k input = some (w₁, k₁) →
      (w₁ = w ∧ M k₁ k') ∨
        ∃ input' k₁', R input input' ∧ act' w k' input' = some (w₁, k₁') ∧ M k₁ k₁')
    {s' : State σ κ'} {as : List (Action ρ ι)} (hrun : run (step start act) s as = some t)
    (hp : ∀ a ∈ as, a.Inputs p) (hK : K s.shared) (hJ : ∀ k ∈ s.activations, J s.shared k)
    (hshared : s'.shared = s.shared) (hM : List.Forall₂ M s.activations s'.activations) :
    ∃ bs t', Contracts (Action.Translates R) Action.IsResume as bs ∧
      run (step start' act') s' bs = some t' ∧ t'.shared = t.shared ∧
      List.Forall₂ M t.activations t'.activations := by
  have hstep : ∀ u u' a v, Related K J M u u' → a.Inputs p → step start act u a = some v →
      (a.IsResume ∧ Related K J M v u') ∨ ∃ b v', Action.Translates R a b ∧
        step start' act' u' b = some v' ∧ Related K J M v v' := by
    rintro u ⟨w', ks'⟩ a v ⟨hu, hsh, hks⟩ ha hstep
    obtain rfl : w' = u.shared := hsh
    have hv := (h.step ha hu.1 hu.2 hstep).1
    cases a with
    | invoke request =>
      obtain ⟨w, k, hk, rfl⟩ := step_invoke_eq_some.mp hstep
      obtain ⟨k', hk', hkk'⟩ := hstart hk
      exact Or.inr ⟨.invoke request, _, .invoke request,
        step_invoke_eq_some.mpr ⟨w, k', hk', rfl⟩, hv, rfl, List.rel_append hks (.cons hkk' .nil)⟩
    | resume i input =>
      obtain ⟨k, w, k₁, hk, hk₁, rfl⟩ := step_resume_eq_some.mp hstep
      obtain ⟨k', hk', hkk'⟩ := forall₂_getElem? hks hk
      rcases hact hu.1 (hu.2 k (List.mem_of_getElem? hk)) hkk' ha hk₁ with
        ⟨rfl, hm⟩ | ⟨input', k₁', hR, hk₁', hm⟩
      · refine Or.inl ⟨trivial, hv, rfl, ?_⟩
        rw [← set_of_getElem? hk']
        exact forall₂_set hks hm
      · exact Or.inr ⟨.resume i input', _, .resume i hR,
          step_resume_eq_some.mpr ⟨k', w, k₁', hk', hk₁', rfl⟩, hv, rfl, forall₂_set hks hm⟩
  obtain ⟨bs, t', hbs, hrun', -, ht⟩ := Run.simulation hstep hrun hp ⟨⟨hK, hJ⟩, hshared, hM⟩
  exact ⟨bs, t', hbs, hrun', ht⟩

end Simulation

/-! ### Counting the steps of one activation -/

/-- The action is a step of activation `i`. -/
def Action.isResume (i : ℕ) : Action ρ ι → Bool
  | .invoke _ => false
  | .resume j _ => j = i

/-- If `weight` counts the steps that an activation of kind `q` has taken, then a run contains as
many steps of activation `i` as its weight has grown. -/
theorem countP_isResume {weight : κ → ℕ} {q : κ → Prop}
    (hstart : ∀ {w request w' k}, start w request = some (w', k) → q k → weight k = 0)
    (hact : ∀ {w k input w' k'}, act w k input = some (w', k') → q k' →
      q k ∧ weight k' = weight k + 1)
    {as : List (Action ρ ι)} (hrun : run (step start act) s as = some t) {i : ℕ} {k : κ}
    (hk : t.activations[i]? = some k) (hq : q k) :
    (∀ k₀, s.activations[i]? = some k₀ → q k₀) ∧
      as.countP (Action.isResume i) + (s.activations[i]?).elim 0 weight = weight k := by
  induction as generalizing s with
  | nil =>
    obtain rfl : s = t := Option.some.inj hrun
    refine ⟨fun k₀ hk₀ => ?_, by simp [hk]⟩
    obtain rfl : k = k₀ := Option.some.inj (hk.symm.trans hk₀)
    exact hq
  | cons a as ih =>
    obtain ⟨u, hu, hrun⟩ := run_cons_eq_some.mp hrun
    obtain ⟨hqu, hcount⟩ := ih hrun
    cases a with
    | invoke request =>
      obtain ⟨w, k₁, hk₁, rfl⟩ := step_invoke_eq_some.mp hu
      rw [List.countP_cons_of_neg (by simp [Action.isResume])]
      rcases Nat.lt_trichotomy i s.activations.length with hi | hi | hi
      · rw [List.getElem?_append_left hi] at hqu hcount
        exact ⟨hqu, hcount⟩
      · have hlast : (s.activations ++ [k₁])[i]? = some k₁ := by simp [hi]
        have hnone : s.activations[i]? = none := by simp [hi]
        have hzero := hstart hk₁ (hqu k₁ hlast)
        rw [hlast, Option.elim_some, hzero] at hcount
        exact ⟨by simp [hnone], by rw [hnone, Option.elim_none, hcount]⟩
      · have hlast : (s.activations ++ [k₁])[i]? = none := by
          rw [List.getElem?_eq_none_iff, List.length_append, List.length_singleton]
          omega
        have hnone : s.activations[i]? = none := List.getElem?_eq_none (by omega)
        rw [hlast] at hcount
        exact ⟨by simp [hnone], by rw [hnone, hcount]⟩
    | resume j input =>
      obtain ⟨k₀, w, k₁, hk₀, hk₁, rfl⟩ := step_resume_eq_some.mp hu
      by_cases hij : j = i
      · subst hij
        have hset : (s.activations.set j k₁)[j]? = some k₁ :=
          List.getElem?_set_self (List.getElem?_eq_some_iff.mp hk₀).1
        obtain ⟨hqk₀, hweight⟩ := hact hk₁ (hqu k₁ hset)
        rw [hset, Option.elim_some, hweight] at hcount
        rw [List.countP_cons_of_pos (by simp [Action.isResume]), hk₀]
        refine ⟨fun k₂ hk₂ => ?_, by rw [Option.elim_some]; omega⟩
        obtain rfl : k₀ = k₂ := Option.some.inj hk₂
        exact hqk₀
      · rw [List.getElem?_set_ne hij] at hqu hcount
        rw [List.countP_cons_of_neg (by simp [Action.isResume, hij])]
        exact ⟨hqu, hcount⟩

/-- If every step of an activation raises its potential, then a run contains no more steps of
activation `i` than its potential has grown. -/
theorem countP_isResume_le {I : State σ κ → Prop} (potential : κ → ℕ)
    (hI : ∀ u a v, I u → step start act u a = some v → I v)
    (hact : ∀ {u} {i : ℕ} {k input w k'}, I u → u.activations[i]? = some k →
      act u.shared k input = some (w, k') → potential k + 1 ≤ potential k')
    {as : List (Action ρ ι)} (hrun : run (step start act) s as = some t) (hs : I s) {i : ℕ} {k : κ}
    (hk : t.activations[i]? = some k) :
    as.countP (Action.isResume i) + (s.activations[i]?).elim 0 potential ≤ potential k := by
  induction as generalizing s with
  | nil =>
    obtain rfl : s = t := Option.some.inj hrun
    simp [hk]
  | cons a as ih =>
    obtain ⟨u, hu, hrun⟩ := run_cons_eq_some.mp hrun
    have hcount := ih hrun (hI s a u hs hu)
    cases a with
    | invoke request =>
      obtain ⟨w, k₁, -, rfl⟩ := step_invoke_eq_some.mp hu
      rw [List.countP_cons_of_neg (by simp [Action.isResume])]
      rcases Nat.lt_or_ge i s.activations.length with hi | hi
      · rwa [List.getElem?_append_left hi] at hcount
      · rw [List.getElem?_eq_none hi, Option.elim_none]
        omega
    | resume j input =>
      obtain ⟨k₀, w, k₁, hk₀, hk₁, rfl⟩ := step_resume_eq_some.mp hu
      by_cases hij : j = i
      · subst hij
        have hgrown := hact hs hk₀ hk₁
        rw [getElem?_set_of_some hk₀, Option.elim_some] at hcount
        rw [List.countP_cons_of_pos (by simp [Action.isResume]), hk₀, Option.elim_some]
        omega
      · rw [List.getElem?_set_ne hij] at hcount
        rwa [List.countP_cons_of_neg (by simp [Action.isResume, hij])]

/-! ### Totals over all activations -/

/-- Replacing one activation replaces its summand. -/
theorem sum_map_set {μ : Type*} [AddCommMonoid μ] (weight : κ → μ) {l : List κ} {i : ℕ} {k : κ}
    (hk : l[i]? = some k) (k' : κ) :
    ((l.set i k').map weight).sum + weight k = (l.map weight).sum + weight k' := by
  induction l generalizing i with
  | nil => simp at hk
  | cons a l ih =>
    cases i with
    | zero =>
      obtain rfl : a = k := by simpa using hk
      simp only [List.set_cons_zero, List.map_cons, List.sum_cons]
      rw [add_right_comm, add_comm (weight k'), add_right_comm, add_comm (weight a)]
    | succ i =>
      have hih := ih (i := i) (by simpa using hk)
      simp only [List.set_cons_succ, List.map_cons, List.sum_cons]
      rw [add_assoc, hih, add_assoc]

/-- One activation is part of the total. -/
theorem le_sum_map (weight : κ → ℕ) {l : List κ} {i : ℕ} {k : κ} (hk : l[i]? = some k) :
    weight k ≤ (l.map weight).sum := by
  induction l generalizing i with
  | nil => simp at hk
  | cons a l ih =>
    rw [List.map_cons, List.sum_cons]
    cases i with
    | zero =>
      obtain rfl : a = k := by simpa using hk
      omega
    | succ i =>
      have hih := ih (i := i) (by simpa using hk)
      omega

/-- Two activations are part of the total. -/
theorem add_le_sum_map (weight : κ → ℕ) {l : List κ} {i j : ℕ} {k k' : κ} (hk : l[i]? = some k)
    (hk' : l[j]? = some k') (hij : i ≠ j) : weight k + weight k' ≤ (l.map weight).sum := by
  induction l generalizing i j with
  | nil => simp at hk
  | cons a l ih =>
    rw [List.map_cons, List.sum_cons]
    rcases i with _ | i <;> rcases j with _ | j
    · exact absurd rfl hij
    · obtain rfl : a = k := by simpa using hk
      have hle := le_sum_map weight (l := l) (i := j) (by simpa using hk')
      omega
    · obtain rfl : a = k' := by simpa using hk'
      have hle := le_sum_map weight (l := l) (i := i) (by simpa using hk)
      omega
    · have hih := ih (i := i) (j := j) (by simpa using hk) (by simpa using hk') (by omega)
      omega

/-- What all activations hold together. -/
theorem coe_flatMap {β : Type*} (content : κ → List β) (l : List κ) :
    (l.flatMap content : Multiset β) = (l.map fun k => (content k : Multiset β)).sum := by
  induction l with
  | nil => rfl
  | cons k l ih => rw [List.flatMap_cons, ← Multiset.coe_add, ih, List.map_cons, List.sum_cons]

/-- Replacing one activation replaces what it holds. -/
theorem flatMap_set {β : Type*} (content : κ → List β) {l : List κ} {i : ℕ} {k : κ}
    (hk : l[i]? = some k) (k' : κ) :
    ((l.set i k').flatMap content : Multiset β) + content k = l.flatMap content + content k' := by
  rw [coe_flatMap, coe_flatMap]
  exact sum_map_set (fun k => (content k : Multiset β)) hk k'

/-- What is held only once is held by one activation. -/
theorem index_eq_of_mem {β : Type*} {content : κ → List β} {l : List κ} {i j : ℕ} {k k' : κ} {b : β}
    (hnd : (l.flatMap content).Nodup) (hk : l[i]? = some k) (hk' : l[j]? = some k')
    (hb : b ∈ content k) (hb' : b ∈ content k') : i = j := by
  obtain ⟨hi, rfl⟩ := List.getElem?_eq_some_iff.mp hk
  obtain ⟨hj, rfl⟩ := List.getElem?_eq_some_iff.mp hk'
  have hdisjoint := List.pairwise_iff_getElem.mp (List.nodup_flatMap.mp hnd).2
  rcases Nat.lt_trichotomy i j with hij | hij | hij
  · exact absurd hb' (hdisjoint i j hi hj hij hb)
  · exact hij
  · exact absurd hb (hdisjoint j i hj hi hij hb')

/-- What each activation holds at most once is counted by those that hold it. -/
theorem length_flatMap_eq_countP {β : Type*} {content : κ → List β} {p : κ → Bool} {l : List κ}
    (h : ∀ k ∈ l, (content k).length = if p k then 1 else 0) :
    (l.flatMap content).length = l.countP p := by
  induction l with
  | nil => rfl
  | cons k l ih =>
    obtain ⟨hk, hl⟩ := List.forall_mem_cons.mp h
    rw [List.flatMap_cons, List.length_append, hk, ih hl, List.countP_cons, Nat.add_comm]

/-- What each activation holds at most once is held by those that are counted, in their order. -/
theorem forall₂_flatMap {β : Type*} {content : κ → List β} {p : κ → Bool} {l : List κ}
    (h : ∀ k ∈ l, (content k).length = if p k then 1 else 0) :
    List.Forall₂ (fun k b => content k = [b]) (l.filter p) (l.flatMap content) := by
  induction l with
  | nil => exact .nil
  | cons k l ih =>
    obtain ⟨hk, hl⟩ := List.forall_mem_cons.mp h
    rw [List.flatMap_cons]
    cases hp : p k with
    | true =>
      rw [hp, if_pos rfl] at hk
      obtain ⟨b, hb⟩ := List.length_eq_one_iff.mp hk
      rw [List.filter_cons_of_pos hp, hb]
      exact .cons hb (ih hl)
    | false =>
      rw [hp, if_neg Bool.false_ne_true] at hk
      rw [List.filter_cons_of_neg (Bool.not_eq_true _ ▸ hp), List.length_eq_zero_iff.mp hk]
      exact ih hl

/-- If what the activations hold is what some items show, each of those that hold something has an
item of its own. -/
theorem exists_perm_forall₂ {β γ : Type*} {content : κ → List β} {p : κ → Bool} {l : List κ}
    {f : γ → β} {items : List γ} (h : ∀ k ∈ l, (content k).length = if p k then 1 else 0)
    (hperm : (items.map f).Perm (l.flatMap content)) : ∃ items', items'.Perm items ∧
      List.Forall₂ (fun k item => content k = [f item]) (l.filter p) items' := by
  obtain ⟨items', heq, hitems⟩ : Relation.Comp (· = List.map f ·) List.Perm
      (l.flatMap content) items := by
    rw [List.eq_map_comp_perm]
    exact hperm.symm
  have hheld := forall₂_flatMap h
  rw [heq, List.forall₂_map_right_iff] at hheld
  exact ⟨items', hitems, hheld⟩

/-! ### Balances -/

section Balance

variable {μ : Type*} [AddCancelCommMonoid μ]

/-- The balance of one step: what the activations hold together is what `total` has in excess of
`rest`. -/
structure Balanced (start : σ → ρ → Option (σ × κ)) (act : σ → κ → ι → Option (σ × κ))
    (p : ι → Prop) (total rest : σ → μ) (content : κ → μ) : Prop where
  start : ∀ {w request w' k}, start w request = some (w', k) →
    total w' + rest w = total w + rest w' + content k
  act : ∀ {w k input w' k'}, p input → act w k input = some (w', k') →
    total w' + rest w + content k = total w + rest w' + content k'

/-- **Conservation.** -/
theorem Balanced.reachable {p : ι → Prop} {total rest : σ → μ} {content : κ → μ}
    (h : Balanced start act p total rest content)
    (hr : Reachable (step start act) (Action.Inputs p) s t)
    (hs : total s.shared = rest s.shared + (s.activations.map content).sum) :
    total t.shared = rest t.shared + (t.activations.map content).sum := by
  refine hr.invariant
    (I := fun u => total u.shared = rest u.shared + (u.activations.map content).sum) hs ?_
  intro u a v hu ha hstep
  cases a with
  | invoke request =>
    obtain ⟨w, k, hk, rfl⟩ := step_invoke_eq_some.mp hstep
    have hbalance := h.start hk
    rw [hu] at hbalance
    show total w = rest w + ((u.activations ++ [k]).map content).sum
    rw [List.map_append, List.sum_append, List.map_singleton, List.sum_singleton]
    refine add_right_cancel (b := rest u.shared) (hbalance.trans ?_)
    ac_rfl
  | resume i input =>
    obtain ⟨k, w, k', hi, hk', rfl⟩ := step_resume_eq_some.mp hstep
    have hbalance := h.act ha hk'
    have hset := sum_map_set content hi k'
    rw [hu] at hbalance
    show total w = rest w + ((u.activations.set i k').map content).sum
    refine add_right_cancel (b := rest u.shared + content k) ?_
    calc total w + (rest u.shared + content k)
        = rest u.shared + (u.activations.map content).sum + rest w + content k' := by
          rw [← add_assoc, hbalance]
      _ = rest u.shared + rest w + ((u.activations.map content).sum + content k') := by ac_rfl
      _ = rest w + ((u.activations.set i k').map content).sum + (rest u.shared + content k) := by
          rw [← hset]
          ac_rfl

end Balance

/-! ### Bounds -/

/-- The bound on one step: what the activations weigh together grows by no more than `cap`. The
invariant `I` may be used. -/
structure Bounded (start : σ → ρ → Option (σ × κ)) (act : σ → κ → ι → Option (σ × κ)) (p : ι → Prop)
    (I : State σ κ → Prop) (cap : σ → ℕ) (weight : κ → ℕ) : Prop where
  start : ∀ {s request w k}, I s → start s.shared request = some (w, k) →
    weight k + cap s.shared ≤ cap w
  act : ∀ {s} {i : ℕ} {k input w k'}, I s → s.activations[i]? = some k → p input →
    act s.shared k input = some (w, k') → weight k' + cap s.shared ≤ weight k + cap w

/-- **A bound on the total.** -/
theorem Bounded.reachable {p : ι → Prop} {I : State σ κ → Prop} {cap : σ → ℕ} {weight : κ → ℕ}
    (h : Bounded start act p I cap weight)
    (hI : ∀ u a v, I u → a.Inputs p → step start act u a = some v → I v)
    (hr : Reachable (step start act) (Action.Inputs p) s t) (hs : I s)
    (hbound : (s.activations.map weight).sum ≤ cap s.shared) :
    (t.activations.map weight).sum ≤ cap t.shared := by
  refine (hr.invariant (I := fun u => I u ∧ (u.activations.map weight).sum ≤ cap u.shared)
    ⟨hs, hbound⟩ ?_).2
  rintro u a v ⟨hu, hle⟩ ha hstep
  refine ⟨hI u a v hu ha hstep, ?_⟩
  cases a with
  | invoke request =>
    obtain ⟨w, k, hk, rfl⟩ := step_invoke_eq_some.mp hstep
    have hgrown := h.start hu hk
    rw [List.map_append, List.sum_append, List.map_singleton, List.sum_singleton]
    show _ ≤ cap w
    omega
  | resume i input =>
    obtain ⟨k, w, k', hi, hk', rfl⟩ := step_resume_eq_some.mp hstep
    have hgrown := h.act hu hi ha hk'
    have hset := sum_map_set weight hi k'
    show ((u.activations.set i k').map weight).sum ≤ cap w
    omega

/-! ### Origins -/

/-- What one step does to the items `D` of the shared state. An item of the new state is a later
form of an old one, or the activation that has stepped has made it; and an activation that has made
an item remains the one that has. -/
structure Originates {δ : Type*} (start : σ → ρ → Option (σ × κ))
    (act : σ → κ → ι → Option (σ × κ)) (p : ι → Prop) (I : State σ κ → Prop) (D : σ → δ → Prop)
    (later : δ → δ → Prop) (made : κ → δ → Prop) : Prop where
  start : ∀ {s request w k d}, I s → start s.shared request = some (w, k) → D w d →
    ∃ d₀, D s.shared d₀ ∧ later d₀ d
  keep : ∀ {w k input w' k' d}, act w k input = some (w', k') → made k d → made k' d
  act : ∀ {s} {i : ℕ} {k input w k' d}, I s → s.activations[i]? = some k → p input →
    act s.shared k input = some (w, k') → D w d →
    (∃ d₀, D s.shared d₀ ∧ later d₀ d) ∨ made k' d
  later : ∀ {k d₀ d}, made k d₀ → later d₀ d → made k d

/-- **Every item has been made by an activation.** -/
theorem Originates.reachable {δ : Type*} {p : ι → Prop} {I : State σ κ → Prop} {D : σ → δ → Prop}
    {later : δ → δ → Prop} {made : κ → δ → Prop}
    (h : Originates start act p I D later made)
    (hI : ∀ u a v, I u → a.Inputs p → step start act u a = some v → I v)
    (hr : Reachable (step start act) (Action.Inputs p) s t) (hs : I s)
    (hmade : ∀ d, D s.shared d → ∃ k ∈ s.activations, made k d) :
    ∀ d, D t.shared d → ∃ k ∈ t.activations, made k d := by
  refine (hr.invariant
    (I := fun u => I u ∧ ∀ d, D u.shared d → ∃ k ∈ u.activations, made k d) ⟨hs, hmade⟩ ?_).2
  rintro u a v ⟨hu, horigin⟩ ha hstep
  refine ⟨hI u a v hu ha hstep, fun d hd => ?_⟩
  cases a with
  | invoke request =>
    obtain ⟨w, k, hk, rfl⟩ := step_invoke_eq_some.mp hstep
    obtain ⟨d₀, hd₀, hlater⟩ := h.start hu hk hd
    obtain ⟨k₀, hk₀, hmade₀⟩ := horigin d₀ hd₀
    exact ⟨k₀, List.mem_append_left _ hk₀, h.later hmade₀ hlater⟩
  | resume i input =>
    obtain ⟨k, w, k', hi, hk', rfl⟩ := step_resume_eq_some.mp hstep
    rcases h.act hu hi ha hk' hd with ⟨d₀, hd₀, hlater⟩ | hnew
    · obtain ⟨k₀, hk₀, hmade₀⟩ := horigin d₀ hd₀
      have hmade₁ := h.later hmade₀ hlater
      by_cases hsame : k₀ = k
      · exact ⟨k', mem_set_of_some hi k', h.keep hk' (hsame ▸ hmade₁)⟩
      · exact ⟨k₀, mem_set_of_ne hk₀ hi hsame, hmade₁⟩
    · exact ⟨k', mem_set_of_some hi k', hnew⟩

/-- What an activation has and loses in no step, it still has at the end of a run. -/
theorem exists_getElem? {p : ι → Prop} {q : κ → Prop}
    (hq : ∀ {w k input w' k'}, act w k input = some (w', k') → q k → q k')
    (hr : Reachable (step start act) (Action.Inputs p) s t) {i : ℕ} {k : κ}
    (hi : s.activations[i]? = some k) (hk : q k) : ∃ k', t.activations[i]? = some k' ∧ q k' := by
  refine hr.invariant (I := fun u => ∃ k', u.activations[i]? = some k' ∧ q k') ⟨k, hi, hk⟩ ?_
  rintro u a v ⟨k₀, hk₀, hq₀⟩ - hstep
  cases a with
  | invoke request =>
    obtain ⟨w, k₁, -, rfl⟩ := step_invoke_eq_some.mp hstep
    exact ⟨k₀, getElem?_append_of_some hk₀ k₁, hq₀⟩
  | resume j input =>
    obtain ⟨k₁, w, k₂, hj, hk₂, rfl⟩ := step_resume_eq_some.mp hstep
    by_cases hij : j = i
    · subst hij
      obtain rfl : k₁ = k₀ := Option.some.inj (hj.symm.trans hk₀)
      exact ⟨k₂, getElem?_set_of_some hj k₂, hq hk₂ hq₀⟩
    · exact ⟨k₀, by rw [List.getElem?_set_ne hij, hk₀], hq₀⟩

/-- What an activation has from its start, and loses in no step, it has at the end of a run. Starts
and steps are those of the states that the run can lead through. -/
theorem of_getElem? {p : ι → Prop} {q : κ → Prop}
    (hr : Reachable (step start act) (Action.Inputs p) s t)
    (hstart : ∀ {u request w k}, Reachable (step start act) (Action.Inputs p) s u →
      start u.shared request = some (w, k) → q k)
    {i : ℕ} (hact : ∀ {u k input w k'}, Reachable (step start act) (Action.Inputs p) s u →
      u.activations[i]? = some k → act u.shared k input = some (w, k') → q k → q k')
    (hs : ∀ k, s.activations[i]? = some k → q k) :
    ∀ k, t.activations[i]? = some k → q k := by
  refine (hr.invariant (I := fun u => Reachable (step start act) (Action.Inputs p) s u ∧
    ∀ k, u.activations[i]? = some k → q k) ⟨.refl s, hs⟩ ?_).2
  rintro u a v ⟨hu, hq⟩ ha hstep
  refine ⟨hu.tail ha hstep, fun k hk => ?_⟩
  cases a with
  | invoke request =>
    obtain ⟨w, k₁, hk₁, rfl⟩ := step_invoke_eq_some.mp hstep
    rcases getElem?_append_cases hk with hk | ⟨-, rfl⟩
    · exact hq k hk
    · exact hstart hu hk₁
  | resume j input =>
    obtain ⟨k₁, w, k₂, hj, hk₂, rfl⟩ := step_resume_eq_some.mp hstep
    rcases getElem?_set_cases hk with ⟨rfl, rfl⟩ | ⟨-, hk⟩
    · exact hact hu hj hk₂ (hq k₁ hj)
    · exact hq k hk

end Interleave
