import Mathlib.Data.List.Basic
import Mathlib.Logic.Function.Basic

/-!
# A queue for each key

A family of first-in first-out queues, one for each key, and the family that is kept in one shared
list: the queue of a key is what the list holds under this key, in the order of the list.

Adding an element at the end of the list, taking out the first element of a key and dropping all
elements of a key are then operations of a single queue of the family.

## Main definitions

* `KeyedQueues.push`, `KeyedQueues.pop`, `KeyedQueues.drop` — on one queue of a family
* `KeyedQueues.project` — the family that a shared list holds

## Main results

* `KeyedQueues.project_append_singleton`, `KeyedQueues.pop_project_append_cons`,
  `KeyedQueues.project_filter_ne`
-/

namespace KeyedQueues

variable {κ α : Type*} [DecidableEq κ]

/-! ### Operations of one queue -/

/-- Put an element at the end of the queue of a key. -/
def push (queues : κ → List α) (k : κ) (a : α) : κ → List α :=
  Function.update queues k (queues k ++ [a])

/-- Take the first element out of the queue of a key, if there is one. -/
def pop (queues : κ → List α) (k : κ) : (κ → List α) × Option α :=
  (Function.update queues k (queues k).tail, (queues k).head?)

/-- Empty the queue of a key. -/
def drop (queues : κ → List α) (k : κ) : κ → List α := Function.update queues k []

variable {queues : κ → List α} {k k' : κ} {a : α}

@[simp] theorem push_self : push queues k a k = queues k ++ [a] := Function.update_self ..

theorem push_of_ne (h : k' ≠ k) : push queues k a k' = queues k' := Function.update_of_ne h ..

@[simp] theorem pop_fst_self : (pop queues k).1 k = (queues k).tail := Function.update_self ..

theorem pop_fst_of_ne (h : k' ≠ k) : (pop queues k).1 k' = queues k' := Function.update_of_ne h ..

@[simp] theorem pop_snd : (pop queues k).2 = (queues k).head? := rfl

theorem pop_of_nil (h : queues k = []) : pop queues k = (queues, none) := by
  have hsame : Function.update queues k [] = queues := Function.update_eq_self_iff.mpr h.symm
  rw [pop, h, List.tail_nil, hsame, List.head?_nil]

@[simp] theorem drop_self : drop queues k k = [] := Function.update_self ..

theorem drop_of_ne (h : k' ≠ k) : drop queues k k' = queues k' := Function.update_of_ne h ..

/-! ### Queues in a shared list -/

variable (key : α → κ)

/-- The queues in a shared list. -/
def project (l : List α) (k : κ) : List α := l.filter fun a => key a = k

variable {key} {l older newer : List α}

@[simp] theorem project_nil : project key [] = fun _ => [] := rfl

theorem project_append (l l' : List α) (k : κ) :
    project key (l ++ l') k = project key l k ++ project key l' k := List.filter_append ..

theorem project_cons_self (h : key a = k) (l : List α) :
    project key (a :: l) k = a :: project key l k := List.filter_cons_of_pos (by simpa using h)

theorem project_cons_of_ne (h : key a ≠ k) (l : List α) :
    project key (a :: l) k = project key l k := List.filter_cons_of_neg (by simpa using h)

theorem project_eq_nil_iff : project key l k = [] ↔ ∀ a ∈ l, key a ≠ k := by
  simp [project]

theorem project_append_singleton (l : List α) (a : α) :
    project key (l ++ [a]) = push (project key l) (key a) a := by
  funext k
  rw [project_append]
  rcases eq_or_ne k (key a) with rfl | hne
  · rw [push_self, project_cons_self rfl, project_nil]
  · rw [push_of_ne hne, project_cons_of_ne hne.symm, project_nil, List.append_nil]

/-- The first element of a key is taken from where it is. -/
theorem pop_project_append_cons (h : ∀ b ∈ older, key b ≠ key a) :
    pop (project key (older ++ a :: newer)) (key a)
      = (project key (older ++ newer), some a) := by
  have hqueue : project key (older ++ a :: newer) (key a) = a :: project key newer (key a) := by
    rw [project_append, project_eq_nil_iff.mpr h, project_cons_self rfl, List.nil_append]
  refine Prod.ext ?_ (by rw [pop_snd, hqueue, List.head?_cons])
  funext k
  show (pop (project key (older ++ a :: newer)) (key a)).1 k = project key (older ++ newer) k
  rcases eq_or_ne k (key a) with rfl | hne
  · rw [pop_fst_self, hqueue, List.tail_cons, project_append, project_eq_nil_iff.mpr h,
      List.nil_append]
  · rw [pop_fst_of_ne hne, project_append, project_append, project_cons_of_ne hne.symm]

theorem project_filter_ne (l : List α) (k : κ) :
    project key (l.filter fun a => key a ≠ k) = drop (project key l) k := by
  funext k'
  rw [project, List.filter_filter]
  rcases eq_or_ne k' k with rfl | hne
  · rw [drop_self, List.filter_eq_nil_iff]
    intro a _
    simp
  · rw [drop_of_ne hne, project]
    refine List.filter_congr fun a _ => ?_
    by_cases h : key a = k'
    · simp [h, hne]
    · simp [h]

end KeyedQueues
