import Mathlib.Data.List.Nodup
import Mathlib.Data.List.Lemmas

/-!
# Updating the first match in a list with unique keys

`updateFirst p f l` replaces the first element satisfying `p` by its image, which is what a
single-document update does to a collection. When a key is unique in the list and `f` keeps it, the
effect is easiest to state through lookups by key: one lookup changes, the others do not.

## Main results

* `UpdateFirst.find?_key_iff` — with unique keys, looking a key up is membership
* `UpdateFirst.find?_updateFirst` — a lookup by key after an update
* `UpdateFirst.map_updateFirst` — keys are kept, hence so is their uniqueness
* `UpdateFirst.filter_updateFirst` — updates and parts of the list
-/

namespace UpdateFirst

variable {α κ : Type*}

/-- Replace the first element satisfying `p` by its image under `f`. -/
def updateFirst (p : α → Bool) (f : α → α) : List α → List α
  | [] => []
  | a :: l => if p a then f a :: l else a :: updateFirst p f l

theorem updateFirst_of_forall_not {p : α → Bool} {f : α → α} {l : List α}
    (h : ∀ a ∈ l, p a = false) : updateFirst p f l = l := by
  induction l with
  | nil => rfl
  | cons a l ih =>
    rw [updateFirst, h a (List.mem_cons_self ..), if_neg (by simp),
      ih fun b hb => h b (List.mem_cons_of_mem _ hb)]

theorem updateFirst_congr {p q : α → Bool} {f : α → α} {l : List α} (h : ∀ a ∈ l, p a = q a) :
    updateFirst p f l = updateFirst q f l := by
  induction l with
  | nil => rfl
  | cons a l ih =>
    rw [updateFirst, updateFirst, h a (List.mem_cons_self ..),
      ih fun b hb => h b (List.mem_cons_of_mem _ hb)]

/-- A function that `f` does not change has the same values after the update. -/
theorem map_updateFirst {p : α → Bool} {f : α → α} (key : α → κ) (hf : ∀ a, key (f a) = key a)
    (l : List α) : (updateFirst p f l).map key = l.map key := by
  induction l with
  | nil => rfl
  | cons a l ih =>
    rw [updateFirst]
    split
    · rw [List.map_cons, List.map_cons, hf]
    · rw [List.map_cons, List.map_cons, ih]

/-- An update of elements of a part of the list is an update of this part. -/
theorem filter_updateFirst {p q : α → Bool} {f : α → α} {l : List α} (hf : ∀ a, q (f a) = q a)
    (hp : ∀ a ∈ l, p a = true → q a = true) :
    (updateFirst p f l).filter q = updateFirst p f (l.filter q) := by
  induction l with
  | nil => rfl
  | cons a l ih =>
    obtain ⟨ha, hl⟩ := List.forall_mem_cons.mp hp
    rw [updateFirst]
    by_cases hpa : p a = true
    · rw [if_pos hpa, List.filter_cons_of_pos (by rw [hf, ha hpa]),
        List.filter_cons_of_pos (ha hpa), updateFirst, if_pos hpa]
    · rw [if_neg hpa, List.filter_cons, List.filter_cons, ih hl]
      split
      · rw [updateFirst, if_neg hpa]
      · rfl

/-- An update of an element outside a part of the list leaves this part as it is. -/
theorem filter_updateFirst_of_not {p q : α → Bool} {f : α → α} {l : List α}
    (hf : ∀ a, q (f a) = q a) (hp : ∀ a ∈ l, p a = true → q a = false) :
    (updateFirst p f l).filter q = l.filter q := by
  induction l with
  | nil => rfl
  | cons a l ih =>
    obtain ⟨ha, hl⟩ := List.forall_mem_cons.mp hp
    rw [updateFirst]
    split
    · next hpa =>
      rw [List.filter_cons_of_neg (by simp [hf, ha hpa]),
        List.filter_cons_of_neg (by simp [ha hpa])]
    · rw [List.filter_cons, List.filter_cons, ih hl]

section Lookup

variable [DecidableEq κ] (key : α → κ) {l : List α}

/-- With unique keys, the element a lookup finds is the only one with that key. -/
theorem find?_key_iff (hl : (l.map key).Nodup) {k : κ} {a : α} :
    l.find? (fun b => key b = k) = some a ↔ a ∈ l ∧ key a = k := by
  induction l with
  | nil => simp
  | cons b l ih =>
    rw [List.map_cons, List.nodup_cons] at hl
    by_cases hb : key b = k
    · rw [List.find?_cons_of_pos (by simpa using hb), Option.some.injEq, List.mem_cons]
      constructor
      · rintro rfl
        exact ⟨Or.inl rfl, hb⟩
      · rintro ⟨rfl | ha, hk⟩
        · rfl
        · exact absurd (List.mem_map.mpr ⟨a, ha, hk.trans hb.symm⟩) hl.1
    · rw [List.find?_cons_of_neg (by simpa using hb), ih hl.2, List.mem_cons]
      constructor
      · rintro ⟨ha, hk⟩
        exact ⟨Or.inr ha, hk⟩
      · rintro ⟨rfl | ha, hk⟩
        · exact absurd hk hb
        · exact ⟨ha, hk⟩

/-- A lookup after an update that only touches the key `k`. -/
theorem find?_updateFirst (p : α → Bool) (f : α → α) (hf : ∀ a, key (f a) = key a)
    (hl : (l.map key).Nodup) {k : κ} (hp : ∀ a, p a = true → key a = k) (j : κ) :
    (updateFirst p f l).find? (fun b => key b = j) =
      (l.find? (fun b => key b = j)).map fun a => if p a then f a else a := by
  induction l with
  | nil => rfl
  | cons a l ih =>
    rw [List.map_cons, List.nodup_cons] at hl
    rw [updateFirst]
    by_cases hpa : p a = true
    · rw [if_pos hpa]
      by_cases hj : key a = j
      · rw [List.find?_cons_of_pos (by simpa [hf] using hj),
          List.find?_cons_of_pos (by simpa using hj), Option.map_some, if_pos hpa]
      · rw [List.find?_cons_of_neg (by simpa [hf] using hj),
          List.find?_cons_of_neg (by simpa using hj)]
        cases hb : l.find? (fun b => key b = j) with
        | none => rfl
        | some b =>
          obtain ⟨hmem, hkb⟩ := (find?_key_iff key hl.2).mp hb
          have hpb : p b = false := by
            by_contra hpb
            have := hp b (by simpa using hpb)
            exact hl.1 (List.mem_map.mpr ⟨b, hmem, this.trans (hp a hpa).symm⟩)
          rw [Option.map_some, hpb, if_neg (by simp)]
    · rw [if_neg hpa]
      by_cases hj : key a = j
      · rw [List.find?_cons_of_pos (by simpa using hj),
          List.find?_cons_of_pos (by simpa using hj), Option.map_some, if_neg hpa]
      · rw [List.find?_cons_of_neg (by simpa using hj),
          List.find?_cons_of_neg (by simpa using hj), ih hl.2]

end Lookup

end UpdateFirst
