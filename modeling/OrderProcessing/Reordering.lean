import OrderProcessing.Reference
import Mathlib.Data.List.Perm.Basic

/-!
# Values with one text

The values of a JSON text without `1e999` and its like have finite numbers only. Among them
`stableSerialize` is injective up to the order of properties: two values with one text have the same
properties, items and leaves everywhere, and differ at most in the order in which the properties of
their objects are listed.

## Main definitions

* `Json.every` — a property of all numbers and all objects of a tree
* `Json.Reordered` — equality up to the order of properties

## Main results

* `reordered_of_stableSerialize_eq`
-/

namespace OrderProcessing

/-! ### Properties of whole trees -/

namespace Json

mutual

/-- Every number of the tree satisfies `number`, and the keys of every object satisfy `keys`. -/
def every (number : JsNumber → Bool) (keys : List JsString → Bool) : Json → Bool
  | .num n => number n
  | .arr items => everyItems number keys items
  | .obj entries => keys (entries.map Prod.fst) && everyEntries number keys entries
  | _ => true

/-- The same of each item of an array. -/
def everyItems (number : JsNumber → Bool) (keys : List JsString → Bool) : List Json → Bool
  | [] => true
  | v :: items => every number keys v && everyItems number keys items

/-- The same of each value of an object. -/
def everyEntries (number : JsNumber → Bool) (keys : List JsString → Bool) :
    List (JsString × Json) → Bool
  | [] => true
  | (_, v) :: entries => every number keys v && everyEntries number keys entries

end

variable {number : JsNumber → Bool} {keys : List JsString → Bool}

theorem every_arr {items : List Json} :
    every number keys (.arr items) = true ↔ ∀ v ∈ items, every number keys v = true := by
  rw [every]
  induction items with
  | nil => simp [everyItems]
  | cons v items ih => simp [everyItems, ih]

theorem everyEntries_iff {entries : List (JsString × Json)} :
    everyEntries number keys entries = true ↔ ∀ e ∈ entries, every number keys e.2 = true := by
  induction entries with
  | nil => simp [everyEntries]
  | cons e entries ih => simp [everyEntries, ih]

theorem every_obj {entries : List (JsString × Json)} :
    every number keys (.obj entries) = true ↔
      keys (entries.map Prod.fst) = true ∧ ∀ e ∈ entries, every number keys e.2 = true := by
  rw [every, Bool.and_eq_true, everyEntries_iff]

end Json

/-- Every number is finite. -/
def Json.finite : Json → Bool := Json.every JsNumber.isFinite fun _ => true

/-- Equality up to the order of the properties of objects, at any depth. -/
inductive Json.Reordered : Json → Json → Prop
  | null : Reordered .null .null
  | bool (b : Bool) : Reordered (.bool b) (.bool b)
  | num (n : JsNumber) : Reordered (.num n) (.num n)
  | str (s : JsString) : Reordered (.str s) (.str s)
  | arr {items items'} : List.Forall₂ Reordered items items' → Reordered (.arr items) (.arr items')
  | obj {entries entries' permuted : List (JsString × Json)} : entries.Perm permuted →
      permuted.map Prod.fst = entries'.map Prod.fst →
      List.Forall₂ Reordered (permuted.map Prod.snd) (entries'.map Prod.snd) →
      Reordered (.obj entries) (.obj entries')

namespace Json.Reordered

/-- Properties with one key, and values that differ in the order of properties only. -/
def Entry (e e' : JsString × Json) : Prop := e.1 = e'.1 ∧ Reordered e.2 e'.2

theorem forall₂_entry_iff {l l' : List (JsString × Json)} :
    List.Forall₂ Entry l l' ↔ l.map Prod.fst = l'.map Prod.fst ∧
      List.Forall₂ Reordered (l.map Prod.snd) (l'.map Prod.snd) :=
  forall₂_pair_iff

theorem refl (v : Json) : Reordered v v := by
  induction v using Json.induction with
  | null => exact .null
  | bool b => exact .bool b
  | num n => exact .num n
  | str s => exact .str s
  | arr items ih => exact .arr (List.forall₂_same.mpr ih)
  | obj entries ih =>
    refine .obj (List.Perm.refl entries) rfl (List.forall₂_same.mpr fun v hv => ?_)
    obtain ⟨e, he, rfl⟩ := List.mem_map.mp hv
    exact ih e he

end Json.Reordered

/-! ### Values with one text -/

theorem forall₂_imp_of_mem {α β : Type} {R S : α → β → Prop} {l : List α} {m : List β}
    (h : List.Forall₂ R l m) (hRS : ∀ a ∈ l, ∀ b ∈ m, R a b → S a b) : List.Forall₂ S l m := by
  induction h with
  | nil => exact .nil
  | cons hab _ ih =>
    refine .cons (hRS _ (List.mem_cons_self ..) _ (List.mem_cons_self ..) hab) (ih ?_)
    intro a ha b hb
    exact hRS a (List.mem_cons_of_mem _ ha) b (List.mem_cons_of_mem _ hb)

theorem map_eq_map_iff_forall₂ {α β γ : Type} {f : α → γ} {g : β → γ} {l : List α} {m : List β} :
    l.map f = m.map g ↔ List.Forall₂ (fun a b => f a = g b) l m := by
  rw [← List.forall₂_eq_eq_eq, List.forall₂_map_left_iff, List.forall₂_map_right_iff]

theorem Json.eq_null_of_finite {v : Json} (hv : v.finite = true) (hnull : v.kind = .null) :
    v = .null := by
  rcases v with _ | _ | (_ | _ | _) | _ | _ | _
  all_goals first | rfl | exact Kind.noConfusion hnull | exact Bool.noConfusion hv

/-- Values that are the same, with finite numbers, differ in the order of properties only. -/
theorem Json.Same.reordered {v w : Json} (h : Same v w) (hv : v.finite = true)
    (hw : w.finite = true) : Reordered v w := by
  induction v using Json.induction generalizing w with
  | null =>
    cases h with
    | null _ hnull => exact eq_null_of_finite hw hnull ▸ .null
  | bool b =>
    cases h with
    | null hnull => exact Kind.noConfusion hnull
    | bool => exact .bool b
  | num n =>
    cases h with
    | null hnull => exact Json.noConfusion (eq_null_of_finite hv hnull)
    | num q => exact .num (.finite q)
  | str s =>
    cases h with
    | null hnull => exact Kind.noConfusion hnull
    | str => exact .str s
  | arr items ih =>
    cases h with
    | null hnull => exact Kind.noConfusion hnull
    | arr hitems =>
      refine .arr (forall₂_imp_of_mem hitems fun a ha b hb hab => ?_)
      exact ih a ha hab (every_arr.mp hv a ha) (every_arr.mp hw b hb)
  | obj entries ih =>
    cases h with
    | null hnull => exact Kind.noConfusion hnull
    | @obj _ entries' sorted sorted' hperm hperm' hkeys hvalues =>
      have hsorted : Relation.Comp (List.Forall₂ Entry) List.Perm sorted entries' :=
        ⟨sorted', forall₂_entry_iff.mpr ⟨hkeys, hvalues⟩, hperm'⟩
      rw [List.forall₂_comp_perm_eq_perm_comp_forall₂] at hsorted
      obtain ⟨permuted, hpermuted, hentries⟩ := hsorted
      have hmem : entries.Perm permuted := hperm.symm.trans hpermuted
      have hreordered : List.Forall₂ Reordered.Entry permuted entries' := by
        refine forall₂_imp_of_mem hentries fun e he e' he' hsame => ⟨hsame.1, ?_⟩
        have he := hmem.mem_iff.mpr he
        exact ih e he hsame.2 ((every_obj.mp hv).2 e he) ((every_obj.mp hw).2 e' he')
      obtain ⟨hkeys, hvalues⟩ := Reordered.forall₂_entry_iff.mp hreordered
      exact .obj hmem hkeys hvalues

/-- **Values with one text differ in the order of properties only**, as long as their numbers are
finite. -/
theorem reordered_of_stableSerialize_eq {P : Platform} (hP : P.NumbersReadable) {v w : Json}
    (hv : v.finite = true) (hw : w.finite = true)
    (h : stableSerialize P v = stableSerialize P w) : Json.Reordered v w :=
  (same_of_stableSerialize_eq hP h).reordered hv hw

/-- One object with its two properties in either order. -/
theorem reordered_of_stableSerialize_eq_swapped :
    let items : Json := .arr [.num (.finite 1), .null, .arr []]
    let v : Json := .obj [(js "b", items), (js "a", .str (js "x\",\"y"))]
    let w : Json := .obj [(js "a", .str (js "x\",\"y")), (js "b", items)]
    stableSerialize .reference v = stableSerialize .reference w ∧ Json.Reordered v w := by
  intro items v w
  have htext : stableSerialize .reference v = stableSerialize .reference w := by decide
  exact ⟨htext, reordered_of_stableSerialize_eq Platform.reference_numbersReadable (by decide)
    (by decide) htext⟩

end OrderProcessing
