import Mathlib.Data.List.Nodup
import Mathlib.Data.List.Lemmas

/-!
# Association lists under repeated assignment

`assign l` is what is left of the assignments `l`, made one after another: every key stands where it
was assigned first, with the value that it was assigned last. This is how an object comes out of a
list of properties in which a key may occur twice.

## Main results

* `Assign.nodup_keys` — no key is left twice
* `Assign.mem_of_mem_assign` — every assignment that is left was made
* `Assign.lookup_assign_map` — renaming the keys, where the key that is looked up stays apart
-/

namespace Assign

variable {α β γ δ : Type*} [BEq α] [LawfulBEq α] [BEq γ] [LawfulBEq γ]

/-- The assignments that are left. -/
def assign : List (α × β) → List (α × β)
  | [] => []
  | (k, v) :: l => (k, ((assign l).lookup k).getD v) :: (assign l).filter fun e => e.1 != k

/-- Every assignment that is left was made. -/
theorem mem_of_mem_assign {e : α × β} {l : List (α × β)} (h : e ∈ assign l) : e ∈ l := by
  induction l generalizing e with
  | nil => exact h
  | cons a l ih =>
    obtain ⟨k, v⟩ := a
    rcases List.mem_cons.mp h with rfl | h
    · cases hlookup : (assign l).lookup k with
      | none => exact List.mem_cons_self
      | some w =>
        obtain ⟨l₁, l₂, heq, -⟩ := List.lookup_eq_some_iff.mp hlookup
        exact List.mem_cons_of_mem _ (ih (heq ▸ by simp))
    · exact List.mem_cons_of_mem _ (ih (List.mem_of_mem_filter h))

/-- No key is left twice. -/
theorem nodup_keys (l : List (α × β)) : ((assign l).map Prod.fst).Nodup := by
  induction l with
  | nil => exact List.nodup_nil
  | cons a l ih =>
    rw [assign, List.map_cons, List.nodup_cons]
    refine ⟨fun hmem => ?_, ih.sublist (List.filter_sublist.map _)⟩
    obtain ⟨e, he, hkey⟩ := List.mem_map.mp hmem
    simpa [hkey] using List.of_mem_filter he

theorem lookup_eq_none_of_notMem {k : α} {l : List (α × β)} (h : k ∉ l.map Prod.fst) :
    l.lookup k = none := by
  rw [List.lookup_eq_none_iff]
  rintro e he
  have hne : k ≠ e.1 := fun heq => h (heq ▸ List.mem_map_of_mem he)
  simpa using hne

theorem lookup_cons_ne {k k' : α} (v : β) (l : List (α × β)) (h : k' ≠ k) :
    ((k, v) :: l).lookup k' = l.lookup k' := by
  rw [List.lookup_cons, beq_eq_false_iff_ne.mpr h]

theorem lookup_filter_ne {k k' : α} (l : List (α × β)) (h : k' ≠ k) :
    (l.filter fun e => e.1 != k).lookup k' = l.lookup k' := by
  induction l with
  | nil => rfl
  | cons e l ih =>
    obtain ⟨i, v⟩ := e
    by_cases hi : i = k
    · subst hi
      rw [List.filter_cons_of_neg (by simp), ih, lookup_cons_ne v l h]
    · rw [List.filter_cons_of_pos (by simpa using hi), List.lookup_cons, List.lookup_cons, ih]

/-- Of the properties of an object, under new names: one whose name no other has taken. -/
theorem lookup_assign_map {f : α → γ} {g : β → δ} {k : α} (hf : ∀ k', f k' = f k → k' = k)
    {l : List (α × β)} (hnd : (l.map Prod.fst).Nodup) :
    (assign (l.map fun e => (f e.1, g e.2))).lookup (f k) = (l.lookup k).map g := by
  induction l with
  | nil => rfl
  | cons e l ih =>
    obtain ⟨i, v⟩ := e
    rw [List.map_cons, List.nodup_cons] at hnd
    rw [List.map_cons, assign]
    by_cases hi : i = k
    · subst hi
      rw [List.lookup_cons_self, List.lookup_cons_self, ih hnd.2,
        lookup_eq_none_of_notMem hnd.1]
      rfl
    · have hne : f k ≠ f i := fun heq => hi (hf i heq.symm)
      rw [lookup_cons_ne _ _ hne, lookup_filter_ne _ hne, ih hnd.2,
        lookup_cons_ne _ _ (Ne.symm hi)]

end Assign
