import OrderProcessing.Order
import OrderProcessing.Serialization

/-!
# A concrete platform and concrete requests

Results about the service hold for every `Platform`, some of them under hypotheses on it. Here is
one platform on which a run can be evaluated: its functions are exact on the few values that such
runs use, and extended so that those hypotheses hold. A create request is built from its typed
fields.
-/

namespace OrderProcessing

open UniqueReading

/-! ### The platform -/

/-- The decimal digits of a natural number. -/
def decimal (n : ℕ) : JsString := (Nat.toDigits 10 n).map fun c => UInt16.ofNat c.toNat

/-- Exact on the integers below `10 ^ 21`. -/
def referenceNumberToString (q : ℚ) : JsString :=
  (if q < 0 then [0x2D] else []) ++ decimal q.num.natAbs ++
    (if q.den = 1 then [] else 0x65 :: decimal q.den)

/-- The SHA-256 digests of two serialized create bodies. -/
def knownDigests : List (JsString × JsString) :=
  [(js ("\x7b\"customerId\":\"c-1\",\"items\":[\x7b\"qty\":1,\"sku\":\"A\"\x7d],"
      ++ "\"totalAmount\":10\x7d"),
    js "103c2c9610b0234c68180dd572715bbebf2c48e83bd4ea3e872342ed558f856c"),
   (js ("\x7b\"customerId\":\"c-1\",\"items\":[\x7b\"qty\":1,\"sku\":\"A\"\x7d],"
      ++ "\"totalAmount\":20\x7d"),
    js "df3ab99c7fd3c136c45f931996a5c43c9f98b8ea520bef6f7263fc90dd8a6085")]

/-- Exact on the texts whose digest is known, and free of collisions. -/
def referenceSha256 (text : JsString) : JsString := (knownDigests.lookup text).getD (0 :: text)

/-- Exact on strings of lower case ASCII letters. -/
def referenceLocaleCompare : JsString → JsString → ℤ
  | [], [] => 0
  | [], _ => -1
  | _, [] => 1
  | a :: as, b :: bs => if a < b then -1 else if b < a then 1 else referenceLocaleCompare as bs

/-- Exact on canonical timestamps. -/
def referenceToISOString (input : String) : Option String :=
  if input.toList.length = 24 ∧ input.toList.getLast? = some 'Z' then some input else none

/-- A platform to evaluate runs on. -/
def Platform.reference : Platform where
  sha256 := referenceSha256
  localeCompare := referenceLocaleCompare
  numberToString := referenceNumberToString
  toISOString := referenceToISOString
  toISOString_canonical := by
    intro input text h
    rw [referenceToISOString] at h
    split at h
    · next hcanonical =>
      obtain rfl := Option.some.inj h
      rw [referenceToISOString, if_pos hcanonical]
    · simp at h

/-! ### What is assumed of platforms -/

theorem toNat_of_mem_toDigits {n : ℕ} {c : Char} (hc : c ∈ Nat.toDigits 10 n) :
    48 ≤ c.toNat ∧ c.toNat ≤ 57 := by
  have hdigit := Nat.isDigit_of_mem_toDigits (by decide) (by decide) hc
  rw [Char.isDigit, Bool.and_eq_true, decide_eq_true_eq, decide_eq_true_eq] at hdigit
  exact hdigit

theorem toNat_ofNat_of_mem_toDigits {n : ℕ} {c : Char} (hc : c ∈ Nat.toDigits 10 n) :
    (UInt16.ofNat c.toNat).toNat = c.toNat := by
  have hlow := toNat_of_mem_toDigits hc
  rw [UInt16.toNat_ofNat', Nat.mod_eq_of_lt (by omega)]

theorem decimal_injective : Function.Injective decimal := by
  have hread : ∀ n, (decimal n).map (fun u => Char.ofNat u.toNat) = Nat.toDigits 10 n := by
    intro n
    rw [decimal, List.map_map]
    refine (List.map_congr_left fun c hc => ?_).trans (List.map_id _)
    rw [Function.comp_apply, toNat_ofNat_of_mem_toDigits hc, Char.ofNat_toNat, id]
  intro m n h
  have hdigits : Nat.toDigits 10 m = Nat.toDigits 10 n := by rw [← hread m, h, hread n]
  rw [← Nat.ofDigitChars_ten_toDigits (n := m), hdigits, Nat.ofDigitChars_ten_toDigits]

theorem decimal_ne_nil (n : ℕ) : decimal n ≠ [] := by
  rw [decimal, Ne, List.map_eq_nil_iff]
  exact Nat.toDigits_ne_nil

/-- The digits of a decimal text. -/
theorem digit_of_mem_decimal {n : ℕ} {u : UInt16} (h : u ∈ decimal n) : 0x30 ≤ u ∧ u ≤ 0x39 := by
  obtain ⟨c, hc, rfl⟩ := List.mem_map.mp h
  have hc' := toNat_of_mem_toDigits hc
  rw [UInt16.le_iff_toNat_le, UInt16.le_iff_toNat_le, toNat_ofNat_of_mem_toDigits hc]
  exact hc'

theorem ne_of_mem_decimal {n : ℕ} {u v : UInt16} (h : u ∈ decimal n) (hv : v < 0x30 ∨ 0x39 < v) :
    u ≠ v := by
  rintro rfl
  obtain ⟨hlow, hhigh⟩ := digit_of_mem_decimal h
  rcases hv with hv | hv
  · exact absurd hlow (by simpa using hv)
  · exact absurd hhigh (by simpa using hv)

/-- The sign of a number can be read off its text. -/
theorem sign_eq {p p' : Prop} [Decidable p] [Decidable p'] {m n : ℕ} {r r' : JsString}
    (h : (if p then [0x2D] else []) ++ decimal m ++ r
      = (if p' then [0x2D] else []) ++ decimal n ++ r') :
    (p ↔ p') ∧ decimal m ++ r = decimal n ++ r' := by
  obtain ⟨u, s, hm⟩ := List.exists_cons_of_ne_nil (decimal_ne_nil m)
  obtain ⟨v, t, hn⟩ := List.exists_cons_of_ne_nil (decimal_ne_nil n)
  have hu : u ≠ 0x2D := ne_of_mem_decimal (n := m) (by simp [hm]) (by decide)
  have hv : v ≠ 0x2D := ne_of_mem_decimal (n := n) (by simp [hn]) (by decide)
  split_ifs at h with hp hp'
  · exact ⟨by simp [hp, hp'], (List.cons.inj h).2⟩
  · rw [hn] at h
    exact absurd (List.cons.inj h).1.symm hv
  · rw [hm] at h
    exact absurd (List.cons.inj h).1 hu
  · exact ⟨by simp [*], h⟩

theorem referenceNumberToString_injective : Function.Injective referenceNumberToString := by
  intro q q' h
  rw [referenceNumberToString, referenceNumberToString] at h
  obtain ⟨hsign, hrest⟩ := sign_eq h
  have hstops : ∀ q : ℚ, Stops (· = 0x65) (if q.den = 1 then [] else 0x65 :: decimal q.den) := by
    intro q
    split
    · trivial
    · exact rfl
  have hdigits : ∀ n, ∀ u ∈ decimal n, ¬ u = 0x65 := fun n u hu => ne_of_mem_decimal hu (by decide)
  obtain ⟨hnum, hden⟩ := eq_of_append_eq (hdigits _) (hdigits _) (hstops q) (hstops q') hrest
  have habs : q.num.natAbs = q'.num.natAbs := decimal_injective hnum
  have hden' : q.den = q'.den := by
    split_ifs at hden with h₁ h₂ h₂
    · rw [h₁, h₂]
    · exact decimal_injective (List.cons.inj hden).2
  have hneg : q.num < 0 ↔ q'.num < 0 := by
    rw [Rat.num_neg, Rat.num_neg]
    exact hsign
  exact Rat.ext (by omega) hden'

theorem referenceSha256_cases (text : JsString) :
    (text, referenceSha256 text) ∈ knownDigests ∨ referenceSha256 text = 0 :: text := by
  rw [referenceSha256]
  cases hfind : knownDigests.lookup text with
  | none => exact Or.inr rfl
  | some digest =>
    obtain ⟨l₁, l₂, hl, -⟩ := List.lookup_eq_some_iff.mp hfind
    exact Or.inl (by rw [hl]; simp)

theorem referenceSha256_injective : Function.Injective referenceSha256 := by
  have hne : ∀ e ∈ knownDigests, ∀ text, e.2 ≠ 0 :: text := by
    intro e he text heq
    have hhead : ∀ e ∈ knownDigests, e.2.head? ≠ some 0 := by decide
    exact hhead e he (by rw [heq]; rfl)
  have hinj : ∀ e ∈ knownDigests, ∀ e' ∈ knownDigests, e.2 = e'.2 → e.1 = e'.1 := by decide
  intro x y h
  rcases referenceSha256_cases x with hx | hx <;> rcases referenceSha256_cases y with hy | hy
  · exact hinj _ hx _ hy h
  · exact absurd (h.trans hy) (hne _ hx y)
  · exact absurd (h.symm.trans hx) (hne _ hy x)
  · exact (List.cons.inj (hx.symm.trans (h.trans hy))).2

theorem Platform.reference_collisionFree : Platform.reference.CollisionFree :=
  fun _ _ h => referenceSha256_injective h

theorem Platform.reference_numbersReadable : Platform.reference.NumbersReadable where
  injective := referenceNumberToString_injective
  ne_nil := by
    intro q h
    obtain ⟨u, s, hq⟩ := List.exists_cons_of_ne_nil (decimal_ne_nil q.num.natAbs)
    simp [Platform.reference, referenceNumberToString, hq] at h
  isNumeral := by
    intro q u hu
    have hdigit : ∀ n, u ∈ decimal n → isNumeral u = true := by
      intro n hn
      have hbounds := digit_of_mem_decimal hn
      simp [isNumeral, hbounds]
    simp only [Platform.reference, referenceNumberToString, List.mem_append] at hu
    rcases hu with (hu | hu) | hu
    · split at hu
      · obtain rfl := List.mem_singleton.mp hu
        decide
      · simp at hu
    · exact hdigit _ hu
    · split at hu
      · simp at hu
      · rcases List.mem_cons.mp hu with rfl | hu
        · decide
        · exact hdigit _ hu

theorem referenceLocaleCompare_cons (u v : UInt16) (a b : JsString) :
    referenceLocaleCompare (u :: a) (v :: b)
      = if u < v then -1 else if v < u then 1 else referenceLocaleCompare a b := by
  rw [referenceLocaleCompare]

theorem referenceLocaleCompare_swap (a b : JsString) :
    referenceLocaleCompare a b < 0 ↔ 0 < referenceLocaleCompare b a := by
  induction a generalizing b with
  | nil => cases b <;> simp [referenceLocaleCompare]
  | cons u a ih =>
    cases b with
    | nil => simp [referenceLocaleCompare]
    | cons v b =>
      have hasymm : u < v → ¬ v < u := UInt16.lt_asymm
      rw [referenceLocaleCompare_cons, referenceLocaleCompare_cons]
      split_ifs with h h'
      · exact absurd h' (hasymm h)
      · decide
      · decide
      · exact ih b

theorem referenceLocaleCompare_cons_le {u v : UInt16} {a b : JsString} :
    referenceLocaleCompare (u :: a) (v :: b) ≤ 0 ↔
      u < v ∨ u = v ∧ referenceLocaleCompare a b ≤ 0 := by
  rw [referenceLocaleCompare_cons]
  split_ifs with h h'
  · simp [h]
  · have hne : u ≠ v := (UInt16.ne_of_lt h').symm
    simp [h, hne]
  · have heq : u = v := UInt16.le_antisymm (UInt16.not_lt.mp h') (UInt16.not_lt.mp h)
    simp [heq]

theorem referenceLocaleCompare_trans (a b c : JsString) (hab : referenceLocaleCompare a b ≤ 0)
    (hbc : referenceLocaleCompare b c ≤ 0) : referenceLocaleCompare a c ≤ 0 := by
  induction a generalizing b c with
  | nil => cases c <;> simp [referenceLocaleCompare]
  | cons u a ih =>
    rcases b with _ | ⟨v, b⟩
    · simp [referenceLocaleCompare] at hab
    rcases c with _ | ⟨w, c⟩
    · simp [referenceLocaleCompare] at hbc
    rw [referenceLocaleCompare_cons_le] at hab hbc ⊢
    rcases hab with hlt | ⟨rfl, hab⟩ <;> rcases hbc with hlt' | ⟨rfl, hbc⟩
    · exact Or.inl (UInt16.lt_trans hlt hlt')
    · exact Or.inl hlt
    · exact Or.inl hlt'
    · exact Or.inr ⟨rfl, ih b c hab hbc⟩

theorem Platform.reference_consistentCompare : Platform.reference.ConsistentCompare where
  swap := referenceLocaleCompare_swap
  trans := referenceLocaleCompare_trans

/-! ### Requests -/

/-- A line with no other fields. -/
def OrderItem.of (sku : JsString) (qty : JsNumber) : OrderItem where
  json := .obj [(js "sku", .str sku), (js "qty", .num qty)]
  sku := sku
  qty := qty
  sku_eq := rfl
  qty_eq := rfl
  distinct := rfl

/-- A create body with no other fields. -/
def CreateOrderInput.of (customerId : JsString) (lines : List (JsString × JsNumber))
    (totalAmount : JsNumber) : CreateOrderInput where
  json := .obj
    [(js "customerId", .str customerId),
     (js "items", .arr (lines.map fun line => (OrderItem.of line.1 line.2).json)),
     (js "totalAmount", .num totalAmount)]
  customerId := customerId
  items := lines.map fun line => OrderItem.of line.1 line.2
  totalAmount := totalAmount
  customerId_eq := rfl
  items_eq := by
    rw [List.map_map]
    rfl
  totalAmount_eq := rfl
  distinct := by
    have hitems : Json.distinctKeysItems
        (lines.map fun line => (OrderItem.of line.1 line.2).json) = true := by
      rw [Json.distinctKeysItems_iff]
      intro v hv
      obtain ⟨line, -, rfl⟩ := List.mem_map.mp hv
      exact (OrderItem.of line.1 line.2).distinct
    simp only [Json.distinctKeys, Json.distinctKeysEntries, hitems, List.map_cons, List.map_nil,
      Bool.and_true, decide_eq_true_eq]
    decide

/-- One piece of `A` for the customer `c-1`. The digests of the serialized body are known for the
amounts 10 and 20. -/
def samplePayload (totalAmount : ℚ) : CreateOrderInput :=
  .of (js "c-1") [(js "A", .finite 1)] (.finite totalAmount)

end OrderProcessing
