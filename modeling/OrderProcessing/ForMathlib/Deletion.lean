import OrderProcessing.ForMathlib.Interleave

/-!
# Deleting activations from a run

Deleting some activations from a run means deleting the actions that start them and all their steps.
The activations that are left keep their order, but not their numbers. Whether one is kept is
decided once, when it starts, from its request and from what it has become then.

If the deleted activations only change a part of the shared state that the others do not read, then
what is left is a run again, and ends as before as far as the others are concerned.

## Main definitions

* `Interleave.kept` — the activations that are not deleted
* `Interleave.delete` — what is left of a run

## Main results

* `Interleave.run_delete` — noninterference from one step
-/

namespace Interleave

open Run

variable {σ κ ρ ι : Type*}

/-! ### The activations that are left -/

/-- The activations whose flag is set. -/
def kept : List Bool → List κ → List κ
  | true :: flags, k :: l => k :: kept flags l
  | false :: flags, _ :: l => kept flags l
  | _, _ => []

/-- The number of activation `i` among those that are kept. -/
def keptIndex (flags : List Bool) (i : ℕ) : ℕ := (flags.take i).count true

variable {flags : List Bool} {l : List κ} {i : ℕ} {k : κ}

@[simp] theorem keptIndex_zero : keptIndex flags 0 = 0 := by simp [keptIndex]

@[simp] theorem keptIndex_succ (flag : Bool) :
    keptIndex (flag :: flags) (i + 1) = keptIndex flags i + if flag then 1 else 0 := by
  simp [keptIndex, List.count_cons]

theorem kept_append (h : flags.length = l.length) (flag : Bool) (k : κ) :
    kept (flags ++ [flag]) (l ++ [k]) = kept flags l ++ if flag then [k] else [] := by
  induction flags generalizing l with
  | nil =>
    obtain rfl := List.eq_nil_of_length_eq_zero h.symm
    cases flag <;> rfl
  | cons first flags ih =>
    cases l with
    | nil => simp at h
    | cons a l =>
      have hih := ih (l := l) (by simpa using h)
      cases first with
      | true => exact congrArg (a :: ·) hih
      | false => exact hih

/-- An activation that is kept has its new number. -/
theorem getElem?_kept (h : flags[i]? = some true) (hk : l[i]? = some k) :
    (kept flags l)[keptIndex flags i]? = some k := by
  induction flags generalizing l i with
  | nil => simp at h
  | cons first flags ih =>
    cases l with
    | nil => simp at hk
    | cons a l =>
      cases i with
      | zero =>
        obtain rfl : first = true := by simpa using h
        simpa [kept] using hk
      | succ i =>
        have hih := ih (l := l) (i := i) (by simpa using h) (by simpa using hk)
        cases first with
        | true => simpa [kept] using hih
        | false => simpa [kept] using hih

/-- A step of an activation that is kept. -/
theorem kept_set_of_true (h : flags[i]? = some true) (k : κ) :
    kept flags (l.set i k) = (kept flags l).set (keptIndex flags i) k := by
  induction flags generalizing l i with
  | nil => simp at h
  | cons first flags ih =>
    cases l with
    | nil => cases first <;> rfl
    | cons a l =>
      cases i with
      | zero =>
        obtain rfl : first = true := by simpa using h
        simp [kept]
      | succ i =>
        have hih := ih (l := l) (i := i) (by simpa using h)
        cases first with
        | true => simpa [kept] using hih
        | false => simpa [kept] using hih

/-- A step of an activation that is deleted. -/
theorem kept_set_of_false (h : flags[i]? = some false) (k : κ) :
    kept flags (l.set i k) = kept flags l := by
  induction flags generalizing l i with
  | nil => simp at h
  | cons first flags ih =>
    cases l with
    | nil => rfl
    | cons a l =>
      cases i with
      | zero =>
        obtain rfl : first = false := by simpa using h
        rfl
      | succ i =>
        have hih := ih (l := l) (i := i) (by simpa using h)
        cases first with
        | true => exact congrArg (a :: ·) hih
        | false => exact hih

/-! ### The run that is left -/

variable (start : σ → ρ → Option (σ × κ)) (act : σ → κ → ι → Option (σ × κ)) (keep : ρ → κ → Bool)

/-- What is left of one action, and the flags of the activations after it. -/
def deleteAction (w : σ) (flags : List Bool) : Action ρ ι → List (Action ρ ι) × List Bool
  | .invoke request =>
    match start w request with
    | none => ([], flags)
    | some (_, k) =>
      (if keep request k then [.invoke request] else [], flags ++ [keep request k])
  | .resume i input =>
    (if flags[i]? = some true then [.resume (keptIndex flags i) input] else [], flags)

/-- What is left of a run from `s`, and the flags of all activations at its end. -/
def delete : State σ κ → List Bool → List (Action ρ ι) → List (Action ρ ι) × List Bool
  | _, flags, [] => ([], flags)
  | s, flags, a :: as =>
    match step start act s a with
    | none => ([], flags)
    | some t =>
      let left := deleteAction start keep s.shared flags a
      let rest := delete t left.2 as
      (left.1 ++ rest.1, rest.2)

/-! ### Noninterference -/

/-- What the others do not see: `S` relates the shared states, `M` an activation to what it is
without the deleted ones, and `N` holds of those. `Q` may be used at each step. -/
structure Separates (Q : State σ κ → Action ρ ι → Prop) (S : σ → σ → Prop) (M : κ → κ → Prop)
    (N : κ → Prop) : Prop where
  /-- An activation that is kept starts in the same way without the others. -/
  start_kept : ∀ {s w' request w k}, Q s (.invoke request) → S s.shared w' →
    start s.shared request = some (w, k) → keep request k = true →
    ∃ w₁ k₁, start w' request = some (w₁, k₁) ∧ S w w₁ ∧ M k k₁
  /-- Starting another one is not seen. -/
  start_deleted : ∀ {s w' request w k}, Q s (.invoke request) → S s.shared w' →
    start s.shared request = some (w, k) → keep request k = false → S w w' ∧ N k
  /-- An activation that is kept takes the same step. -/
  act_kept : ∀ {s i input w' k k' w k₁}, Q s (.resume i input) → S s.shared w' →
    s.activations[i]? = some k → M k k' → act s.shared k input = some (w, k₁) →
    ∃ w₁ k₁', act w' k' input = some (w₁, k₁') ∧ S w w₁ ∧ M k₁ k₁'
  /-- A step of another one is not seen. -/
  act_deleted : ∀ {s i input w' k w k₁}, Q s (.resume i input) → S s.shared w' →
    s.activations[i]? = some k → N k → act s.shared k input = some (w, k₁) → S w w' ∧ N k₁

/-- The two states that are compared: with all activations, and without the deleted ones. -/
structure Separated (S : σ → σ → Prop) (M : κ → κ → Prop) (N : κ → Prop) (flags : List Bool)
    (s s' : State σ κ) : Prop where
  length_eq : flags.length = s.activations.length
  shared : S s.shared s'.shared
  kept : List.Forall₂ M (kept flags s.activations) s'.activations
  deleted : ∀ (i : ℕ) k, flags[i]? = some false → s.activations[i]? = some k → N k

variable {start act keep} {Q : State σ κ → Action ρ ι → Prop} {S : σ → σ → Prop}
  {M : κ → κ → Prop} {N : κ → Prop} {s s' t : State σ κ}

/-- An activation that is deleted, after one more has started. -/
theorem Separated.deleted_append (hs : Separated S M N flags s s') {flag : Bool} {i : ℕ} {k k' : κ}
    (hflag : (flags ++ [flag])[i]? = some false) (hk' : (s.activations ++ [k])[i]? = some k') :
    (flag = false ∧ k' = k) ∨ N k' := by
  rcases getElem?_append_cases hk' with hk' | ⟨rfl, rfl⟩
  · refine Or.inr (hs.deleted i k' ?_ hk')
    rw [List.getElem?_append_left] at hflag
    · exact hflag
    · rw [hs.length_eq]
      exact (List.getElem?_eq_some_iff.mp hk').1
  · rw [← hs.length_eq] at hflag
    exact Or.inl ⟨by simpa using hflag, rfl⟩

theorem Separates.step_invoke {request : ρ} (h : Separates start act keep Q S M N)
    (hs : Separated S M N flags s s') (hQ : Q s (.invoke request))
    (hstep : Interleave.step start act s (.invoke request) = some t) :
    ∃ t', run (Interleave.step start act) s'
        (deleteAction start keep s.shared flags (.invoke request)).1 = some t' ∧
      Separated S M N (deleteAction start keep s.shared flags
        (.invoke request : Action ρ ι)).2 t t' := by
  obtain ⟨w, k, hstart, rfl⟩ := step_invoke_eq_some.mp hstep
  have hlength : (flags ++ [keep request k]).length = (s.activations ++ [k]).length := by
    simp [hs.length_eq]
  cases hkeep : keep request k with
  | true =>
    obtain ⟨w₁, k₁, hstart', hS, hM⟩ := h.start_kept hQ hs.shared hstart hkeep
    simp only [deleteAction, hstart, hkeep, if_true]
    rw [hkeep] at hlength
    refine ⟨⟨w₁, s'.activations ++ [k₁]⟩, ?_, hlength, hS, ?_, ?_⟩
    · exact run_cons_eq_some.mpr ⟨_, step_invoke_eq_some.mpr ⟨w₁, k₁, hstart', rfl⟩, rfl⟩
    · rw [kept_append hs.length_eq, if_pos rfl]
      exact List.rel_append hs.kept (.cons hM .nil)
    · intro i k' hflag hk'
      rcases hs.deleted_append hflag hk' with ⟨hnot, -⟩ | hN
      · exact Bool.noConfusion hnot
      · exact hN
  | false =>
    obtain ⟨hS, hN⟩ := h.start_deleted hQ hs.shared hstart hkeep
    simp only [deleteAction, hstart, hkeep, Bool.false_eq_true, if_false]
    rw [hkeep] at hlength
    refine ⟨s', rfl, hlength, hS, ?_, ?_⟩
    · rw [kept_append hs.length_eq, if_neg (by simp), List.append_nil]
      exact hs.kept
    · intro i k' hflag hk'
      rcases hs.deleted_append hflag hk' with ⟨-, rfl⟩ | hN'
      · exact hN
      · exact hN'

theorem Separates.step_resume {i : ℕ} {input : ι} (h : Separates start act keep Q S M N)
    (hs : Separated S M N flags s s') (hQ : Q s (.resume i input))
    (hstep : Interleave.step start act s (.resume i input) = some t) :
    ∃ t', run (Interleave.step start act) s'
        (deleteAction start keep s.shared flags (.resume i input)).1 = some t' ∧
      Separated S M N (deleteAction start keep s.shared flags
        (.resume i input : Action ρ ι)).2 t t' := by
  obtain ⟨k, w, k₁, hk, hact, rfl⟩ := step_resume_eq_some.mp hstep
  have hlt : i < flags.length := by
    rw [hs.length_eq]
    exact (List.getElem?_eq_some_iff.mp hk).1
  have hlength : flags.length = (s.activations.set i k₁).length := by
    rw [List.length_set, hs.length_eq]
  cases hflag : flags[i] with
  | true =>
    have hset : flags[i]? = some true := by rw [List.getElem?_eq_getElem hlt, hflag]
    obtain ⟨k', hk', hM⟩ := forall₂_getElem? hs.kept (getElem?_kept hset hk)
    obtain ⟨w₁, k₁', hact', hS, hM'⟩ := h.act_kept hQ hs.shared hk hM hact
    simp only [deleteAction, hset, if_true]
    refine ⟨⟨w₁, s'.activations.set (keptIndex flags i) k₁'⟩, ?_, hlength, hS, ?_, ?_⟩
    · exact run_cons_eq_some.mpr ⟨_, step_resume_eq_some.mpr ⟨k', w₁, k₁', hk', hact', rfl⟩, rfl⟩
    · rw [kept_set_of_true hset]
      exact forall₂_set hs.kept hM'
    · intro j k'' hj hk''
      rcases getElem?_set_cases hk'' with ⟨rfl, -⟩ | ⟨-, hk''⟩
      · rw [hset] at hj
        exact absurd hj (by simp)
      · exact hs.deleted j k'' hj hk''
  | false =>
    have hset : flags[i]? = some false := by rw [List.getElem?_eq_getElem hlt, hflag]
    obtain ⟨hS, hN⟩ := h.act_deleted hQ hs.shared hk (hs.deleted i k hset hk) hact
    simp only [deleteAction, hset, Option.some.injEq, Bool.false_eq_true, if_false]
    refine ⟨s', rfl, hlength, hS, ?_, ?_⟩
    · rw [kept_set_of_false hset]
      exact hs.kept
    · intro j k'' hj hk''
      rcases getElem?_set_cases hk'' with ⟨-, rfl⟩ | ⟨-, hk''⟩
      · exact hN
      · exact hs.deleted j k'' hj hk''

/-- One step: what is left of it leads to related states. -/
theorem Separates.step {a : Action ρ ι} (h : Separates start act keep Q S M N)
    (hs : Separated S M N flags s s') (hQ : Q s a)
    (hstep : Interleave.step start act s a = some t) :
    ∃ t', run (Interleave.step start act) s' (deleteAction start keep s.shared flags a).1
        = some t' ∧
      Separated S M N (deleteAction start keep s.shared flags a).2 t t' := by
  cases a with
  | invoke => exact h.step_invoke hs hQ hstep
  | resume => exact h.step_resume hs hQ hstep

/-- **Noninterference.** What is left of a run is a run, and its end is related to the end of the
whole. -/
theorem run_delete (h : Separates start act keep Q S M N) {as : List (Action ρ ι)}
    (hrun : run (step start act) s as = some t) (hQ : Along (step start act) Q s as)
    (hs : Separated S M N flags s s') :
    ∃ t', run (step start act) s' (delete start act keep s flags as).1 = some t' ∧
      Separated S M N (delete start act keep s flags as).2 t t' := by
  induction as generalizing s s' flags with
  | nil =>
    obtain rfl : s = t := Option.some.inj hrun
    exact ⟨s', rfl, hs⟩
  | cons a as ih =>
    obtain ⟨u, hu, hrun⟩ := run_cons_eq_some.mp hrun
    obtain ⟨u', hleft, hu'⟩ := h.step hs hQ.1 hu
    obtain ⟨t', hrest, ht⟩ := ih hrun (hQ.2 u hu) hu'
    simp only [delete, hu]
    exact ⟨t', run_append_eq_some.mpr ⟨u', hleft, hrest⟩, ht⟩

end Interleave
