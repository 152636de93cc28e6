import Mathlib.Data.List.Basic
import Mathlib.Data.List.Induction
import Mathlib.Logic.Relation

/-!
# Runs of a partial labelled step function

A system is a function `step : σ → α → Option σ`: in a state, an action is either disabled or leads
to exactly one state. Everything the environment chooses is part of the action, so a run *is* its
list of actions, and a run on concrete actions evaluates.

## What is deliberately absent

No fairness, no silent action, no bundled "transition system". A system here is a bare function, and
every rule takes it as an argument; two systems over the same states need no coercion between them.

## Main definitions

* `Run.run` — the state after a list of actions
* `Run.Reachable` — reachability by actions satisfying a predicate
* `Run.Along` — a predicate on (state, action) holds at every step of a run
* `Run.Contracts` — a list of actions obtained from another by translating some and dropping others
* `Run.answers` — operations that are always enabled, and what they answer

## Main results

* `Run.Reachable.invariant`, `Run.Reachable.related_of_invariant` — one-state and two-state laws
  from one step
* `Run.run_invariant`, `Run.run_variant` — an invariant of the actions that have led to a state, and
  a number that bounds those that are left
* `Run.Reachable.image` — a projection whose steps are steps or stutters preserves reachability
* `Run.run_along` — an invariant that needs a side condition at each step
* `Run.simulation` — forward simulation, with the contracted run of the abstract system
* `Run.answers_map` — refinement along a function, answers included
* `Run.answers_filter` — operations that leave a part of the state alone
* `Run.answers_last_write` — operations that overwrite a part of the state
-/

namespace Run

variable {σ τ α β : Type*} {step : σ → α → Option σ} {step' : τ → β → Option τ}

/-! ### Runs -/

/-- The state after performing `as` from `s`; `none` as soon as one action is disabled. -/
def run (step : σ → α → Option σ) : σ → List α → Option σ
  | s, [] => some s
  | s, a :: as => (step s a).bind fun t => run step t as

@[simp] theorem run_nil (s : σ) : run step s [] = some s := rfl

theorem run_cons_eq_some {s t : σ} {a : α} {as : List α} :
    run step s (a :: as) = some t ↔ ∃ u, step s a = some u ∧ run step u as = some t :=
  Option.bind_eq_some_iff

theorem run_append_eq_some {s t : σ} {as bs : List α} :
    run step s (as ++ bs) = some t ↔ ∃ u, run step s as = some u ∧ run step u bs = some t := by
  induction as generalizing s with
  | nil => simp
  | cons a as ih =>
    rw [List.cons_append, run_cons_eq_some]
    constructor
    · rintro ⟨v, hv, h⟩
      obtain ⟨u, hu, ht⟩ := ih.mp h
      exact ⟨u, run_cons_eq_some.mpr ⟨v, hv, hu⟩, ht⟩
    · rintro ⟨u, hu, ht⟩
      obtain ⟨v, hv, hvu⟩ := run_cons_eq_some.mp hu
      exact ⟨v, hv, ih.mpr ⟨u, hvu, ht⟩⟩

/-! ### Reachability -/

/-- `t` is reached from `s` by actions that all satisfy `p`. -/
def Reachable (step : σ → α → Option σ) (p : α → Prop) (s t : σ) : Prop :=
  ∃ as, (∀ a ∈ as, p a) ∧ run step s as = some t

namespace Reachable

variable {p : α → Prop} {s t u : σ}

theorem refl (s : σ) : Reachable step p s s := ⟨[], by simp, rfl⟩

theorem trans (h : Reachable step p s t) (h' : Reachable step p t u) : Reachable step p s u := by
  obtain ⟨as, has, hs⟩ := h
  obtain ⟨bs, hbs, ht⟩ := h'
  refine ⟨as ++ bs, fun a ha => ?_, run_append_eq_some.mpr ⟨t, hs, ht⟩⟩
  rcases List.mem_append.mp ha with ha | ha
  · exact has a ha
  · exact hbs a ha

theorem single {a : α} (ha : p a) (h : step s a = some t) : Reachable step p s t :=
  ⟨[a], by simpa using ha, run_cons_eq_some.mpr ⟨t, h, rfl⟩⟩

theorem tail {a : α} (h : Reachable step p s t) (ha : p a) (hstep : step t a = some u) :
    Reachable step p s u := h.trans (single ha hstep)

theorem mono {q : α → Prop} (h : Reachable step p s t) (hpq : ∀ a, p a → q a) :
    Reachable step q s t := by
  obtain ⟨as, has, hrun⟩ := h
  exact ⟨as, fun a ha => hpq a (has a ha), hrun⟩

/-- The two-state law: a reflexive and transitive relation that every step respects holds between
the two ends of a run. The invariant `I` may be used to prove the step. -/
theorem related_of_invariant {I : σ → Prop} {R : σ → σ → Prop} (h : Reachable step p s t)
    (hs : I s) (hI : ∀ u a v, I u → p a → step u a = some v → I v) (hrefl : ∀ u, R u u)
    (htrans : ∀ u v w, R u v → R v w → R u w)
    (hR : ∀ u a v, I u → p a → step u a = some v → R u v) : I t ∧ R s t := by
  obtain ⟨as, has, hrun⟩ := h
  induction as generalizing s with
  | nil =>
    obtain rfl : s = t := Option.some.inj hrun
    exact ⟨hs, hrefl s⟩
  | cons a as ih =>
    obtain ⟨v, hv, hvt⟩ := run_cons_eq_some.mp hrun
    have ha : p a := has a (List.mem_cons_self ..)
    obtain ⟨ht, hvR⟩ := ih (hI s a v hs ha hv) (fun b hb => has b (List.mem_cons_of_mem _ hb)) hvt
    exact ⟨ht, htrans s v t (hR s a v hs ha hv) hvR⟩

/-- An invariant holds in every reachable state. -/
theorem invariant {I : σ → Prop} (h : Reachable step p s t) (hs : I s)
    (hI : ∀ u a v, I u → p a → step u a = some v → I v) : I t :=
  (h.related_of_invariant (R := fun _ _ => True) hs hI (fun _ => trivial)
    (fun _ _ _ _ _ => trivial) fun _ _ _ _ _ _ => trivial).1

/-- A projection that turns every step into a step or into nothing preserves reachability. -/
theorem image {p' : β → Prop} (f : σ → τ) (h : Reachable step p s t)
    (hf : ∀ u a v, p a → step u a = some v →
      f v = f u ∨ ∃ b, p' b ∧ step' (f u) b = some (f v)) : Reachable step' p' (f s) (f t) := by
  refine h.invariant (I := fun v => Reachable step' p' (f s) (f v)) (refl (f s)) ?_
  intro u a v hu ha hv
  rcases hf u a v ha hv with heq | ⟨b, hb, hstep⟩
  · rw [heq]; exact hu
  · exact hu.tail hb hstep

end Reachable

/-- The rule for a variant: an invariant holds of a number that every step makes smaller. So a run
is no longer than the number allows. -/
theorem run_variant {I : ℕ → σ → Prop} {p : α → Prop} {n : ℕ} {s t : σ} {as : List α}
    (hrun : run step s as = some t) (hp : ∀ a ∈ as, p a) (hs : I n s)
    (hI : ∀ n u a v, I n u → p a → step u a = some v → ∃ m, m + 1 ≤ n ∧ I m v) :
    ∃ m, m + as.length ≤ n ∧ I m t := by
  induction as generalizing n s with
  | nil =>
    obtain rfl : s = t := Option.some.inj hrun
    exact ⟨n, Nat.le_refl n, hs⟩
  | cons a as ih =>
    obtain ⟨u, hu, hrest⟩ := run_cons_eq_some.mp hrun
    obtain ⟨ha, has⟩ := List.forall_mem_cons.mp hp
    obtain ⟨k, hk, hIk⟩ := hI n s a u hs ha hu
    obtain ⟨m, hm, hIm⟩ := ih hrest has hIk
    exact ⟨m, by rw [List.length_cons]; omega, hIm⟩

/-- The rule for an invariant that also speaks of the actions that have led to the state. -/
theorem run_invariant {I : List α → σ → Prop} {s t : σ} {as : List α}
    (hrun : run step s as = some t) (hs : I [] s)
    (hI : ∀ bs u a v, run step s bs = some u → I bs u → step u a = some v → I (bs ++ [a]) v) :
    I as t := by
  induction as using List.reverseRecOn generalizing t with
  | nil =>
    obtain rfl : s = t := Option.some.inj hrun
    exact hs
  | append_singleton as a ih =>
    obtain ⟨u, hu, ht⟩ := run_append_eq_some.mp hrun
    obtain ⟨v, hv, hvt⟩ := run_cons_eq_some.mp ht
    obtain rfl : v = t := Option.some.inj hvt
    exact hI as u a v hu (ih hu) hv

/-! ### Side conditions along a run -/

/-- `P` holds of the state before and the action, at every step of the run of `as` from `s`. -/
def Along (step : σ → α → Option σ) (P : σ → α → Prop) : σ → List α → Prop
  | _, [] => True
  | s, a :: as => P s a ∧ ∀ t, step s a = some t → Along step P t as

/-- A condition that can be decided at each step can be decided along a run. -/
instance Along.decidable {P : σ → α → Prop} [∀ s a, Decidable (P s a)] :
    ∀ (s : σ) (as : List α), Decidable (Along step P s as)
  | _, [] => isTrue trivial
  | s, a :: as =>
    match hstep : step s a with
    | none => decidable_of_iff (P s a) ⟨fun h => ⟨h, fun t ht => by simp [hstep] at ht⟩, And.left⟩
    | some t =>
      have : Decidable (Along step P t as) := Along.decidable t as
      decidable_of_iff (P s a ∧ Along step P t as)
        ⟨fun h => ⟨h.1, fun u hu => Option.some.inj (hstep.symm.trans hu) ▸ h.2⟩,
          fun h => ⟨h.1, h.2 t hstep⟩⟩

theorem along_true {s : σ} {as : List α} : Along step (fun _ _ => True) s as := by
  induction as generalizing s with
  | nil => trivial
  | cons a as ih => exact ⟨trivial, fun _ _ => ih⟩

/-- An invariant whose preservation needs a side condition at each step, and what it gives at each
step in return. -/
theorem run_along {I : σ → Prop} {P Q : σ → α → Prop} {p : α → Prop} {s t : σ} {as : List α}
    (hrun : run step s as = some t) (hp : ∀ a ∈ as, p a) (hs : I s) (hP : Along step P s as)
    (hI : ∀ u a v, I u → p a → P u a → step u a = some v → I v ∧ Q u a) :
    I t ∧ Along step Q s as := by
  induction as generalizing s with
  | nil =>
    obtain rfl : s = t := Option.some.inj hrun
    exact ⟨hs, trivial⟩
  | cons a as ih =>
    obtain ⟨v, hv, hvt⟩ := run_cons_eq_some.mp hrun
    obtain ⟨hIv, hQ⟩ := hI s a v hs (hp a (List.mem_cons_self ..)) hP.1 hv
    obtain ⟨ht, hrest⟩ := ih hvt (fun b hb => hp b (List.mem_cons_of_mem _ hb)) hIv (hP.2 v hv)
    refine ⟨ht, hQ, fun w hw => ?_⟩
    obtain rfl : v = w := Option.some.inj (hv.symm.trans hw)
    exact hrest

/-- What is true of every state between the two ends of a run may be used to prove a condition at
each step. -/
theorem along_of_reachable {P Q : σ → α → Prop} {p : α → Prop} {s t : σ} {as : List α}
    (hrun : run step s as = some t) (hp : ∀ a ∈ as, p a) (hP : Along step P s as)
    (hQ : ∀ u a, Reachable step p s u → Reachable step p u t → P u a → Q u a) :
    Along step Q s as := by
  induction as generalizing s with
  | nil => trivial
  | cons a as ih =>
    obtain ⟨u, hu, hrest⟩ := run_cons_eq_some.mp hrun
    have ha : p a := hp a (List.mem_cons_self ..)
    have has : ∀ b ∈ as, p b := fun b hb => hp b (List.mem_cons_of_mem _ hb)
    refine ⟨hQ s a (.refl s) ⟨a :: as, hp, hrun⟩ hP.1, fun v hv => ?_⟩
    obtain rfl : u = v := Option.some.inj (hu.symm.trans hv)
    exact ih hrest has (hP.2 u hu) fun w b hw => hQ w b (.trans (.single ha hu) hw)

/-- Either a condition holds at every step, or the run ends in a state that a violation leads to:
`D` holds after each violation, and nothing undoes it. -/
theorem along_or {I D : σ → Prop} {P : σ → α → Prop} {p : α → Prop} {s t : σ} {as : List α}
    (hI : ∀ u a v, I u → p a → step u a = some v → I v)
    (hD : ∀ u a v, I u → p a → D u → step u a = some v → D v)
    (hviolation : ∀ u a v, I u → p a → ¬ P u a → step u a = some v → D v)
    (hrun : run step s as = some t) (hp : ∀ a ∈ as, p a) (hs : I s) :
    Along step P s as ∨ D t := by
  induction as generalizing s with
  | nil => exact Or.inl trivial
  | cons a as ih =>
    obtain ⟨u, hu, hrun⟩ := run_cons_eq_some.mp hrun
    have ha : p a := hp a (List.mem_cons_self ..)
    have has : ∀ b ∈ as, p b := fun b hb => hp b (List.mem_cons_of_mem _ hb)
    by_cases hPa : P s a
    · refine (ih hrun has (hI s a u hs ha hu)).imp_left fun h => ⟨hPa, fun v hv => ?_⟩
      obtain rfl : u = v := Option.some.inj (hu.symm.trans hv)
      exact h
    · have hreach : Reachable step p u t := ⟨as, has, hrun⟩
      exact Or.inr (hreach.invariant (I := fun v => I v ∧ D v)
        ⟨hI s a u hs ha hu, hviolation s a u hs ha hPa hu⟩
        fun v b w hv hb hw => ⟨hI v b w hv.1 hb hw, hD v b w hv.1 hb hv.2 hw⟩).2

/-! ### Forward simulation -/

/-- `bs` is obtained from `as` by translating some actions along `R`, in place, and dropping the
others, each of which satisfies `D`. -/
inductive Contracts (R : α → β → Prop) (D : α → Prop) : List α → List β → Prop
  | nil : Contracts R D [] []
  | keep {a b as bs} : R a b → Contracts R D as bs → Contracts R D (a :: as) (b :: bs)
  | drop {a as bs} : D a → Contracts R D as bs → Contracts R D (a :: as) bs

/-- **Forward simulation.** Every step from a related state is matched by one step of the abstract
system, or by none; then every run is matched by a contracted run. -/
theorem simulation {p : α → Prop} {R : α → β → Prop} {D : α → Prop} {S : σ → τ → Prop}
    (hS : ∀ s s' a t, S s s' → p a → step s a = some t →
      (D a ∧ S t s') ∨ ∃ b t', R a b ∧ step' s' b = some t' ∧ S t t')
    {s t : σ} {s' : τ} {as : List α} (hrun : run step s as = some t) (hp : ∀ a ∈ as, p a)
    (h : S s s') : ∃ bs t', Contracts R D as bs ∧ run step' s' bs = some t' ∧ S t t' := by
  induction as generalizing s s' with
  | nil =>
    obtain rfl : s = t := Option.some.inj hrun
    exact ⟨[], s', .nil, rfl, h⟩
  | cons a as ih =>
    obtain ⟨v, hv, hvt⟩ := run_cons_eq_some.mp hrun
    have hp' : ∀ b ∈ as, p b := fun b hb => hp b (List.mem_cons_of_mem _ hb)
    rcases hS s s' a v h (hp a (List.mem_cons_self ..)) hv with ⟨hD, hv'⟩ | ⟨b, v', hR, hb, hv'⟩
    · obtain ⟨bs, t', hbs, hrun', ht⟩ := ih hvt hp' hv'
      exact ⟨bs, t', .drop hD hbs, hrun', ht⟩
    · obtain ⟨bs, t', hbs, hrun', ht⟩ := ih hvt hp' hv'
      exact ⟨b :: bs, t', .keep hR hbs, run_cons_eq_some.mpr ⟨v', hb, hrun'⟩, ht⟩

/-! ### Operations that answer -/

section Answers

variable {ω ω' : Type*} {op : σ → α → σ × ω} {op' : τ → α → τ × ω'}

/-- The state after a list of operations, and what they have answered. -/
def answers (op : σ → α → σ × ω) : σ → List α → σ × List ω
  | s, [] => (s, [])
  | s, a :: as =>
    let rest := answers op (op s a).1 as
    (rest.1, (op s a).2 :: rest.2)

theorem answers_append_fst (s : σ) (as bs : List α) :
    (answers op s (as ++ bs)).1 = (answers op (answers op s as).1 bs).1 := by
  induction as generalizing s with
  | nil => rfl
  | cons a as ih => exact ih (op s a).1

/-- **Refinement along a function.** If every operation on the image of a state leads to the image
of the new state, with the image of the answer, then so does every run. -/
theorem answers_map {f : σ → τ} {g : ω → ω'}
    (h : ∀ s a, op' (f s) a = Prod.map f g (op s a)) (s : σ) (as : List α) :
    answers op' (f s) as = Prod.map f (List.map g) (answers op s as) := by
  induction as generalizing s with
  | nil => rfl
  | cons a as ih =>
    have hstate : (op' (f s) a).1 = f (op s a).1 := congrArg Prod.fst (h s a)
    have hanswer : (op' (f s) a).2 = g (op s a).2 := congrArg Prod.snd (h s a)
    simp only [answers, hstate, hanswer, ih]
    rfl

/-- A part of the state that some operations leave as it is, and that the others change by
themselves, is what these make of it. -/
theorem answers_filter {f : σ → τ} {q : α → Bool}
    (hkeep : ∀ s t a, q a = true → f s = f t → f (op s a).1 = f (op t a).1)
    (hskip : ∀ s a, q a = false → f (op s a).1 = f s) {s t : σ} (h : f s = f t) (as : List α) :
    f (answers op s as).1 = f (answers op t (as.filter q)).1 := by
  induction as generalizing s t with
  | nil => exact h
  | cons a as ih =>
    cases hq : q a with
    | true =>
      rw [List.filter_cons_of_pos hq]
      exact ih (hkeep s t a hq h)
    | false =>
      rw [List.filter_cons_of_neg (by simp [hq])]
      exact ih ((hskip s a hq).trans h)

/-- A part of the state that each operation overwrites or leaves alone is what the last operation
that overwrites it has written. -/
theorem answers_last_write {γ : Type*} {f : σ → γ} {write : α → Option γ}
    (h : ∀ s a, f (op s a).1 = (write a).getD (f s)) (s : σ) (as : List α) :
    f (answers op s as).1 = (as.filterMap write).getLast?.getD (f s) := by
  induction as generalizing s with
  | nil => rfl
  | cons a as ih =>
    rw [answers, ih, h]
    cases hwrite : write a with
    | none => rw [List.filterMap_cons_none hwrite, Option.getD_none]
    | some v =>
      rw [List.filterMap_cons_some hwrite, List.getLast?_cons, Option.getD_some, Option.getD_some]

end Answers

end Run
