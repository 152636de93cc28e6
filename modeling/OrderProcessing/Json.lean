import Mathlib.Data.Rat.Init
import Mathlib.Data.List.Nodup
import Mathlib.Algebra.Order.Ring.Unbundled.Rat

/-!
# JSON values as the program holds them

The create endpoint hashes and stores whatever object the client sent, extra fields included, and
the Delivery client stores fields of whatever Delivery answered. Both are values of one type.

## Strings and numbers

A string is the sequence of its UTF-16 code units, lone surrogates included: that is what an
ECMAScript string is, and a JSON body may carry any of them through `\u` escapes.

A number is finite or not. A finite one is its exact rational value, so `-0` and `0` are one number;
`JSON.parse` also produces the infinities, from literals such as `1e999`.

## Objects

An object is the list of its own properties, in the order in which `Object.entries` lists them.
Distinctness of the keys is `Json.distinctKeys`, a property of the whole tree.
-/

namespace OrderProcessing

/-- An ECMAScript string: its UTF-16 code units. -/
abbrev JsString := List UInt16

/-- An ASCII literal as an ECMAScript string. -/
def js (s : String) : JsString := s.toList.map fun c => UInt16.ofNat c.toNat

/-- A value of type `number`. -/
inductive JsNumber
  | finite (q : ℚ)
  | infinity (negative : Bool)
  | nan
  deriving DecidableEq

/-- `Number.isFinite`. -/
def JsNumber.isFinite : JsNumber → Bool
  | .finite _ => true
  | _ => false

/-- `n > bound`; comparisons with `NaN` are false. -/
def JsNumber.gt : JsNumber → ℚ → Bool
  | .finite q, bound => bound < q
  | .infinity negative, _ => !negative
  | .nan, _ => false

/-- A value that `JSON.parse` may return. -/
inductive Json
  | null
  | bool (b : Bool)
  | num (n : JsNumber)
  | str (s : JsString)
  | arr (items : List Json)
  | obj (entries : List (JsString × Json))

namespace Json

/-- An own property of a JSON object; no other value that JSON produces has one of these names. -/
def get? : Json → JsString → Option Json
  | .obj entries, key => entries.lookup key
  | _, _ => none

mutual

/-- No object of the tree lists a key twice. -/
def distinctKeys : Json → Bool
  | .arr items => distinctKeysItems items
  | .obj entries => decide (entries.map Prod.fst).Nodup && distinctKeysEntries entries
  | _ => true

/-- The items of an array have no key twice. -/
def distinctKeysItems : List Json → Bool
  | [] => true
  | v :: items => v.distinctKeys && distinctKeysItems items

/-- The values of an object have no key twice. -/
def distinctKeysEntries : List (JsString × Json) → Bool
  | [] => true
  | (_, v) :: entries => v.distinctKeys && distinctKeysEntries entries

end

/-- Truthiness of a property value, `none` standing for `undefined`. -/
def truthy : Option Json → Bool
  | none => false
  | some .null => false
  | some (.bool b) => b
  | some (.num (.finite q)) => q ≠ 0
  | some (.num (.infinity _)) => true
  | some (.num .nan) => false
  | some (.str s) => s ≠ []
  | some (.arr _) => true
  | some (.obj _) => true

/-! ### Lookup and permutations -/

theorem mem_of_lookup {key : JsString} {entries : List (JsString × Json)} {v : Json}
    (h : entries.lookup key = some v) : (key, v) ∈ entries := by
  obtain ⟨l₁, l₂, rfl, -⟩ := List.lookup_eq_some_iff.mp h
  simp

theorem lookup_of_mem {key : JsString} {entries : List (JsString × Json)} {v : Json}
    (hnd : (entries.map Prod.fst).Nodup) (h : (key, v) ∈ entries) :
    entries.lookup key = some v := by
  obtain ⟨l₁, l₂, rfl⟩ := List.append_of_mem h
  refine List.lookup_eq_some_iff.mpr ⟨l₁, l₂, rfl, fun e he => ?_⟩
  rw [List.map_append, List.nodup_append] at hnd
  have hne : e.1 ≠ key :=
    hnd.2.2 e.1 (List.mem_map_of_mem he) key (by simp)
  simpa using hne.symm

theorem distinctKeysItems_iff {items : List Json} :
    distinctKeysItems items = true ↔ ∀ v ∈ items, v.distinctKeys = true := by
  induction items with
  | nil => simp [distinctKeysItems]
  | cons v items ih => simp [distinctKeysItems, ih]

theorem distinctKeysEntries_iff {entries : List (JsString × Json)} :
    distinctKeysEntries entries = true ↔ ∀ e ∈ entries, e.2.distinctKeys = true := by
  induction entries with
  | nil => simp [distinctKeysEntries]
  | cons e entries ih => simp [distinctKeysEntries, ih]

theorem distinctKeys_of_get? {v w : Json} {key : JsString} (hv : v.distinctKeys = true)
    (h : v.get? key = some w) : w.distinctKeys = true := by
  cases v with
  | obj entries =>
    rw [distinctKeys, Bool.and_eq_true, distinctKeysEntries_iff] at hv
    exact hv.2 (key, w) (mem_of_lookup h)
  | _ => simp [get?] at h

/-- Induction over a JSON tree, with one hypothesis for each child. -/
theorem induction {motive : Json → Prop} (null : motive .null) (bool : ∀ b, motive (.bool b))
    (num : ∀ n, motive (.num n)) (str : ∀ s, motive (.str s))
    (arr : ∀ items, (∀ v ∈ items, motive v) → motive (.arr items))
    (obj : ∀ entries, (∀ e ∈ entries, motive e.2) → motive (.obj entries)) :
    ∀ v, motive v
  | .null => null
  | .bool b => bool b
  | .num n => num n
  | .str s => str s
  | .arr items => arr items fun v _ => induction null bool num str arr obj v
  | .obj entries => obj entries fun e _ => induction null bool num str arr obj e.2
termination_by v => sizeOf v
decreasing_by
  · have := List.sizeOf_lt_of_mem ‹v ∈ items›
    simp only [Json.arr.sizeOf_spec]
    omega
  · have := List.sizeOf_lt_of_mem ‹e ∈ entries›
    obtain ⟨k, w⟩ := e
    simp only [Prod.mk.sizeOf_spec] at this
    simp only [Json.obj.sizeOf_spec]
    omega

end Json

end OrderProcessing
