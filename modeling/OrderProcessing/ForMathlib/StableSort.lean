import Mathlib.Data.List.Sort

/-!
# What a stable sort keeps of the order of its input

Elements that the comparison puts into neither order are left in the order of the input. So two
arrangements of the same elements are sorted to one list exactly if they arrange the tied elements
in the same way; an order that leaves no ties forgets the arrangement altogether.

## Main results

* `StableSort.exists_exchange` — two elements change places
* `StableSort.pair_sublist_iff` — tied elements keep their order
* `StableSort.insertionSort_eq_iff` — when two arrangements are sorted to one list
-/

namespace StableSort

open List

variable {α : Type*} {l l' : List α} {a b : α}

/-- Of two members of a list, one comes first. -/
theorem pair_sublist_or (ha : a ∈ l) (hb : b ∈ l) (hne : a ≠ b) : [a, b] <+ l ∨ [b, a] <+ l := by
  induction l with
  | nil => simp at ha
  | cons c l ih =>
    rcases mem_cons.mp ha with hac | hal
    · have hbl : b ∈ l := (mem_cons.mp hb).resolve_left fun hbc => hne (hac.trans hbc.symm)
      exact Or.inl (hac ▸ cons_sublist_cons.mpr (singleton_sublist.mpr hbl))
    · rcases mem_cons.mp hb with hbc | hbl
      · exact Or.inr (hbc ▸ cons_sublist_cons.mpr (singleton_sublist.mpr hal))
      · exact (ih hal hbl).imp (Sublist.cons c) (Sublist.cons c)

theorem mem_of_pair_sublist_cons {c : α} (h : [a, b] <+ c :: l) : b ∈ l := by
  rcases sublist_cons_iff.mp h with hsub | ⟨r, heq, hsub⟩
  · exact hsub.subset (by simp)
  · obtain ⟨-, rfl⟩ := cons.inj heq
    exact singleton_sublist.mp hsub

/-- Without repetitions only one of them does. -/
theorem not_pair_sublist (hnd : l.Nodup) (h : [a, b] <+ l) : ¬ [b, a] <+ l := by
  intro h'
  induction l with
  | nil => simp at h
  | cons c l ih =>
    obtain ⟨hc, hnd⟩ := nodup_cons.mp hnd
    have ha : a ≠ c := fun hac => hc (hac ▸ mem_of_pair_sublist_cons h')
    have hb : b ≠ c := fun hbc => hc (hbc ▸ mem_of_pair_sublist_cons h)
    have htail : ∀ {x y : α}, x ≠ c → [x, y] <+ c :: l → [x, y] <+ l := by
      intro x y hx hsub
      rcases sublist_cons_iff.mp hsub with hsub | ⟨r, heq, -⟩
      · exact hsub
      · exact absurd (cons.inj heq).1 hx
    exact ih hnd (htail ha h) (htail hb h')

/-- Two members come in the same order in every rearrangement, or in the other one. -/
theorem pair_sublist_of_perm (hperm : l.Perm l') (hnd : l.Nodup) (h : [a, b] <+ l) :
    [a, b] <+ l' ∨ [b, a] <+ l' := by
  have hmem : ∀ c ∈ [a, b], c ∈ l' := fun c hc => hperm.mem_iff.mp (h.subset hc)
  have hne : a ≠ b := by
    rintro rfl
    exact absurd (h.nodup hnd) (by simp)
  exact pair_sublist_or (hmem a (by simp)) (hmem b (by simp)) hne

/-- Two members of a list change places. Nothing is seen of it by a function that does not tell them
apart. -/
theorem exists_exchange (h : [a, b] <+ l) : ∃ l' : List α, l.Perm l' ∧ [b, a] <+ l' ∧
    ∀ {β : Type*} (f : α → β), f a = f b → l'.map f = l.map f := by
  obtain ⟨l₁, l₂, rfl, ha, hb⟩ := cons_sublist_iff.mp h
  obtain ⟨x, y, rfl⟩ := append_of_mem ha
  obtain ⟨z, t, rfl⟩ := append_of_mem (singleton_sublist.mp hb)
  refine ⟨x ++ b :: (y ++ (z ++ a :: t)), ?_, ?_, fun f hf => ?_⟩
  · rw [append_assoc, cons_append]
    refine Perm.append_left x ?_
    calc a :: (y ++ (z ++ b :: t))
        _ ~ a :: b :: (y ++ (z ++ t)) := by
          rw [← append_assoc, ← append_assoc]
          exact perm_middle.cons a
        _ ~ b :: a :: (y ++ (z ++ t)) := Perm.swap b a _
        _ ~ b :: (y ++ (z ++ a :: t)) := by
          rw [← append_assoc, ← append_assoc]
          exact perm_middle.symm.cons b
  · have hrest : [a] <+ y ++ (z ++ a :: t) := singleton_sublist.mpr (by simp)
    exact (hrest.cons_cons b).trans (sublist_append_right x _)
  · simp [hf]

section Stability

variable {r : α → α → Prop} [DecidableRel r]

/-- Tied elements keep their order. -/
theorem pair_sublist_iff (hnd : l.Nodup) (hab : r a b) (hba : r b a) :
    [a, b] <+ l.insertionSort r ↔ [a, b] <+ l := by
  refine ⟨fun h => ?_, pair_sublist_insertionSort hab⟩
  have hnd' : (l.insertionSort r).Nodup := (perm_insertionSort r l).nodup_iff.mpr hnd
  refine (pair_sublist_of_perm (perm_insertionSort r l) hnd' h).resolve_right fun h' => ?_
  exact not_pair_sublist hnd' h (pair_sublist_insertionSort hba h')

/-- The sorted list is in order, and where that leaves a choice, in the order of the input. -/
theorem pairwise_insertionSort_stable [Std.Total r] [IsTrans α r] (hnd : l.Nodup) :
    (l.insertionSort r).Pairwise fun a b => r a b ∧ (r b a → [a, b] <+ l) := by
  rw [pairwise_iff_forall_sublist]
  intro a b hsub
  have hab := pairwise_iff_forall_sublist.mp (pairwise_insertionSort r l) hsub
  exact ⟨hab, fun hba => (pair_sublist_iff hnd hab hba).mp hsub⟩

/-- **Two arrangements are sorted to one list** exactly if they put tied elements into one order. -/
theorem insertionSort_eq_iff [Std.Total r] [IsTrans α r] (hperm : l.Perm l') (hnd : l.Nodup) :
    l.insertionSort r = l'.insertionSort r ↔
      ∀ a b, r a b → r b a → [a, b] <+ l → [a, b] <+ l' := by
  have hnd' : l'.Nodup := hperm.nodup_iff.mp hnd
  constructor
  · intro heq a b hab hba h
    rw [← pair_sublist_iff hnd' hab hba, ← heq, pair_sublist_iff hnd hab hba]
    exact h
  · intro h
    have hback : ∀ a b, r a b → r b a → [a, b] <+ l' → [a, b] <+ l := by
      intro a b hab hba hsub
      refine (pair_sublist_of_perm hperm.symm hnd' hsub).resolve_right fun hl => ?_
      exact not_pair_sublist hnd' hsub (h b a hba hab hl)
    have hsorted' : (l'.insertionSort r).Pairwise fun a b => r a b ∧ (r b a → [a, b] <+ l) :=
      (pairwise_insertionSort_stable hnd').imp fun ⟨hab, htie⟩ =>
        ⟨hab, fun hba => hback _ _ hab hba (htie hba)⟩
    refine Perm.eq_of_pairwise ?_ (pairwise_insertionSort_stable hnd) hsorted'
      ((perm_insertionSort r l).trans (hperm.trans (perm_insertionSort r l').symm))
    intro a b _ _ ⟨hab, htie⟩ ⟨hba, htie'⟩
    exact absurd (htie' hab) (not_pair_sublist hnd (htie hba))

end Stability

end StableSort
