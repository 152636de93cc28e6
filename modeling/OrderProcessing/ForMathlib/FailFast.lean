import Mathlib.Data.List.Rotate
import Mathlib.Data.List.TakeWhile

/-!
# Passes over a list that stop at the first failure

A pass takes elements from the front of a list as long as they succeed. The element at which it
stops goes to the end, and the next pass goes on behind it. So every pass but the last removes one
failing element from the front, and no element has to wait for more passes than there are failing
elements before it.

## Main definitions

* `FailFast.requeue` — what a pass leaves
* `FailFast.passes` — what several passes take and leave

## Main results

* `FailFast.passes_countP` — with one pass more than there are failing elements, all others are
  taken
* `FailFast.takeWhile_cases` — two predicates that agree outside of a part of the list
-/

namespace FailFast

variable {α : Type*} {p q : α → Bool} {l failed : List α}

/-- What a pass leaves: the element at which it stops has gone to the end. -/
def requeue (p : α → Bool) (l : List α) : List α := (l.dropWhile p).rotate 1

/-- What a number of passes take, and what they leave. -/
def passes (p : α → Bool) : ℕ → List α → List α × List α
  | 0, l => ([], l)
  | n + 1, l => (l.takeWhile p ++ (passes p n (requeue p l)).1, (passes p n (requeue p l)).2)

/-- A pass stops at the first failing element, or takes everything. -/
theorem split_at_failure (p : α → Bool) (l : List α) :
    (∀ x ∈ l, p x = true) ∨
      ∃ taken x rest, l = taken ++ x :: rest ∧ (∀ y ∈ taken, p y = true) ∧ p x = false := by
  cases hdrop : l.dropWhile p with
  | nil => exact Or.inl (List.dropWhile_eq_nil_iff.mp hdrop)
  | cons x rest =>
    refine Or.inr ⟨l.takeWhile p, x, rest, ?_, fun y hy => List.mem_takeWhile_imp hy, ?_⟩
    · rw [← hdrop, List.takeWhile_append_dropWhile]
    · have hhead := List.head?_dropWhile_not p l
      rw [hdrop] at hhead
      simpa using hhead

/-- A pass over a list in which it stops. -/
theorem takeWhile_append_cons {taken rest : List α} {x : α} (h : ∀ y ∈ taken, p y = true)
    (hx : p x = false) : (taken ++ x :: rest).takeWhile p = taken := by
  rw [List.takeWhile_append_of_pos h, List.takeWhile_cons_of_neg (by simp [hx]), List.append_nil]

theorem requeue_append_cons {taken rest : List α} {x : α} (h : ∀ y ∈ taken, p y = true)
    (hx : p x = false) : requeue p (taken ++ x :: rest) = rest ++ [x] := by
  rw [requeue, List.dropWhile_append_of_pos h, List.dropWhile_cons_of_neg (by simp [hx]),
    List.rotate_cons_succ, List.rotate_zero]

/-- The elements that have failed so far stand at the end. -/
theorem passes_append (hfailed : ∀ x ∈ failed, p x = false) :
    (passes p (l.countP (!p ·) + 1) (l ++ failed)).1 = l.filter p ∧
      (passes p (l.countP (!p ·) + 1) (l ++ failed)).2 ~r l.filter (!p ·) ++ failed := by
  generalize hn : l.countP (!p ·) = n
  induction n generalizing l failed with
  | zero =>
    have hall : ∀ x ∈ l, p x = true := by simpa [List.countP_eq_zero] using hn
    have hnone : l.filter (!p ·) = [] := List.filter_eq_nil_iff.mpr (by simpa using hall)
    rw [List.filter_eq_self.mpr hall, hnone]
    cases failed with
    | nil =>
      have hdrop := List.dropWhile_eq_nil_iff.mpr hall
      simp [passes, requeue, List.takeWhile_eq_self_iff.mpr hall, hdrop]
    | cons x failed =>
      have hx := hfailed x (List.mem_cons_self ..)
      rw [passes, takeWhile_append_cons hall hx, requeue_append_cons hall hx]
      exact ⟨List.append_nil l, List.isRotated_concat x failed⟩
  | succ n ih =>
    rcases split_at_failure p l with hall | ⟨taken, x, rest, rfl, htaken, hx⟩
    · have hzero : l.countP (!p ·) = 0 := List.countP_eq_zero.mpr (by simpa using hall)
      omega
    · have hcount : rest.countP (!p ·) = n := by
        have hfirst : taken.countP (!p ·) = 0 := List.countP_eq_zero.mpr (by simpa using htaken)
        rw [List.countP_append, hfirst, List.countP_cons_of_pos (by simp [hx])] at hn
        omega
      have hfailed' : ∀ y ∈ failed ++ [x], p y = false := by
        intro y hy
        rcases List.mem_append.mp hy with hy | hy
        · exact hfailed y hy
        · rw [List.mem_singleton.mp hy, hx]
      obtain ⟨htake, hrest⟩ := ih hfailed' hcount
      have hnone : taken.filter (!p ·) = [] := List.filter_eq_nil_iff.mpr (by simpa using htaken)
      rw [passes, List.append_assoc, List.cons_append, takeWhile_append_cons htaken hx,
        requeue_append_cons htaken hx, List.append_assoc, htake, List.filter_append,
        List.filter_append, List.filter_eq_self.mpr htaken, List.filter_cons_of_neg (by simp [hx]),
        List.filter_cons_of_pos (by simp [hx]), hnone]
      refine ⟨rfl, hrest.trans ?_⟩
      show _ ~r x :: (rest.filter _ ++ failed)
      rw [← List.append_assoc]
      exact List.isRotated_concat x _

/-- **One pass more than there are failing elements takes all others**, in their order, and leaves
the failing ones. -/
theorem passes_countP (p : α → Bool) (l : List α) :
    (passes p (l.countP (!p ·) + 1) l).1 = l.filter p ∧
      (passes p (l.countP (!p ·) + 1) l).2 ~r l.filter (!p ·) := by
  have hnone : ∀ x ∈ ([] : List α), p x = false := by simp
  have h := passes_append (l := l) hnone
  rwa [List.append_nil, List.append_nil] at h

/-- If two predicates agree outside of `b`, then their passes take the same elements, or one of them
stops at an element of `b` and the other one takes this element too. -/
theorem takeWhile_cases {b : α → Prop} (h : ∀ x, ¬ b x → p x = q x) (l : List α) :
    l.takeWhile p = l.takeWhile q ∨
      (∃ x, (l.dropWhile p).head? = some x ∧ b x ∧ l.takeWhile p ++ [x] <+: l.takeWhile q) ∨
      ∃ x, (l.dropWhile q).head? = some x ∧ b x ∧ l.takeWhile q ++ [x] <+: l.takeWhile p := by
  induction l with
  | nil => exact Or.inl rfl
  | cons x l ih =>
    cases hp : p x <;> cases hq : q x
    · exact Or.inl (by simp [hp, hq])
    · have hb : b x := by
        by_contra hnot
        have hagree := h x hnot
        rw [hp, hq] at hagree
        exact Bool.noConfusion hagree
      exact Or.inr (Or.inl ⟨x, by simp [hp], hb, by simp [hp, hq]⟩)
    · have hb : b x := by
        by_contra hnot
        have hagree := h x hnot
        rw [hp, hq] at hagree
        exact Bool.noConfusion hagree
      exact Or.inr (Or.inr ⟨x, by simp [hq], hb, by simp [hp, hq]⟩)
    · simpa [hp, hq] using ih

end FailFast
