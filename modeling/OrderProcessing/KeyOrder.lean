import OrderProcessing.ForMathlib.StableSort
import OrderProcessing.Reordering
import OrderProcessing.Service

/-!
# The serialization and the order of properties

The serialization sorts the properties of an object by their keys, so that the order in which a
client lists them does not matter. That holds as long as the comparison tells the keys apart.

## The order of properties

`Object.entries` lists the keys that are array indices first, in ascending order, and then the
others in the order in which they were inserted. `Json.listed` says that every object of a value is
in such an order. Only keys that are no array indices can change places.

## Keys that compare as equal

`localeCompare` answers 0 for strings that look the same, whatever their code units are: an `é` of
one unit and an `e` with a combining accent are two keys that are not put into any order. The sort
leaves them as they were inserted, and so the text depends on the order of insertion.

## Main definitions

* `Json.listed` — objects list their properties as `Object.entries` does
* `Json.tieFree` — no object has two keys that change places and compare as equal
* `OrderIgnored` — the order of properties shows neither in the text nor in a replay

## Main results

* `sortEntries_eq_iff` — when two arrangements of properties are sorted to one list
* `orderIgnored_iff` — the order of properties does not matter exactly if no keys are tied
* `order_not_ignored` — a replay that is turned away for the order of its properties
-/

namespace OrderProcessing

open UniqueReading

/-- The number that a key is the decimal text of, if it is an array index. -/
def arrayIndex (key : JsString) : Option ℕ :=
  let n := key.foldl (fun n u => 10 * n + (u.toNat - 0x30)) 0
  if n < 2 ^ 32 - 1 ∧ decimal n = key then some n else none

/-- Array indices come first, in ascending order. -/
def indexPrecedes : Option ℕ → Option ℕ → Bool
  | some m, some n => m < n
  | none, some _ => false
  | _, none => true

/-- Whether `Object.entries` may list `a` before `b`. -/
def mayPrecede (a b : JsString) : Bool := indexPrecedes (arrayIndex a) (arrayIndex b)

/-- Every object lists its properties as `Object.entries` does. -/
def Json.listed : Json → Bool :=
  Json.every (fun _ => true) fun keys => decide (keys.Pairwise fun a b => mayPrecede a b = true)

/-- The keys can change places, and are not put into any order. -/
def Platform.Tied (P : Platform) (a b : JsString) : Prop :=
  arrayIndex a = none ∧ arrayIndex b = none ∧ P.localeCompare a b = 0

instance (P : Platform) (a b : JsString) : Decidable (P.Tied a b) :=
  inferInstanceAs (Decidable (_ ∧ _ ∧ _))

/-- No object has two keys that can change places and compare as equal. -/
def Json.tieFree (P : Platform) : Json → Bool :=
  Json.every (fun _ => true) fun keys => decide (keys.Pairwise fun a b => ¬ P.Tied a b)

/-! ### Texts of arrays and objects -/

section Texts

variable {P : Platform}

theorem readsAs_text (hP : P.NumbersReadable) (v : Json) : ReadsAs IsStop (stableSerialize P)
    (fun v w => stableSerialize P v = stableSerialize P w) v := by
  intro w r r' hr hr' h
  obtain ⟨-, rfl⟩ := stableSerialize_readsAs hP v w r r' hr hr' h
  exact ⟨List.append_cancel_right h, rfl⟩

theorem map_stableSerialize_of_arr_eq (hP : P.NumbersReadable) {items items' : List Json}
    (h : stableSerialize P (.arr items) = stableSerialize P (.arr items')) :
    items.map (stableSerialize P) = items'.map (stableSerialize P) := by
  have hends : stableSerialize P (.arr items) ++ [] = stableSerialize P (.arr items') ++ [] := by
    rw [h]
  obtain ⟨hitems, -⟩ := forall₂_of_arr_append_eq hP (fun v _ => readsAs_text hP v) hends
  exact map_eq_map_iff_forall₂.mpr hitems

theorem sortEntries_of_obj_eq (hP : P.NumbersReadable) {entries entries' : List (JsString × Json)}
    (h : stableSerialize P (.obj entries) = stableSerialize P (.obj entries')) :
    sortEntries P (serializeEntries P entries) = sortEntries P (serializeEntries P entries') := by
  have hends : stableSerialize P (.obj entries) ++ []
      = stableSerialize P (.obj entries') ++ [] := by
    rw [h]
  obtain ⟨hsorted, -⟩ := forall₂_of_obj_append_eq (fun e _ => readsAs_text hP e.2) hends
  rw [sortEntries_serializeEntries, sortEntries_serializeEntries, map_eq_map_iff_forall₂]
  exact hsorted.imp fun _ _ he => Prod.ext he.1 he.2

theorem perm_serializeEntries {entries entries' : List (JsString × Json)}
    (h : entries.Perm entries') :
    (serializeEntries P entries).Perm (serializeEntries P entries') := by
  rw [serializeEntries_eq, serializeEntries_eq]
  exact h.map _

theorem pair_sublist_serializeEntries {a b : JsString × Json} {entries : List (JsString × Json)}
    (h : [a, b].Sublist entries) :
    [(a.1, stableSerialize P a.2), (b.1, stableSerialize P b.2)].Sublist
      (serializeEntries P entries) := by
  rw [serializeEntries_eq]
  exact h.map fun e => (e.1, stableSerialize P e.2)

theorem mem_serializeEntries {e : JsString × Json} {entries : List (JsString × Json)}
    (h : e ∈ entries) : (e.1, stableSerialize P e.2) ∈ serializeEntries P entries := by
  rw [serializeEntries_eq]
  exact List.mem_map_of_mem h

end Texts

/-! ### Sorting -/

theorem indexPrecedes_antisymm {m n : Option ℕ} (h : indexPrecedes m n = true)
    (h' : indexPrecedes n m = true) : m = none ∧ n = none := by
  rcases m with _ | m <;> rcases n with _ | n
  · exact ⟨rfl, rfl⟩
  · exact Bool.noConfusion h
  · exact Bool.noConfusion h'
  · rw [indexPrecedes, decide_eq_true_eq] at h h'
    omega

section Sorting

variable {P : Platform} {α : Type} {l l' : List (JsString × α)}

theorem Platform.ConsistentCompare.eq_zero_iff (hcmp : P.ConsistentCompare) {a b : JsString} :
    P.localeCompare a b = 0 ↔ P.localeCompare a b ≤ 0 ∧ P.localeCompare b a ≤ 0 := by
  have hab := hcmp.swap a b
  have hba := hcmp.swap b a
  omega

/-- When two arrangements of the properties of an object are sorted to one list. -/
theorem sortEntries_eq_iff (hcmp : P.ConsistentCompare) (hperm : l.Perm l')
    (hnd : (l.map Prod.fst).Nodup) :
    sortEntries P l = sortEntries P l' ↔ ∀ a b, P.localeCompare a.1 b.1 = 0 →
      [a, b].Sublist l → [a, b].Sublist l' := by
  have htotal : Std.Total fun a b : JsString × α => P.localeCompare a.1 b.1 ≤ 0 := by
    refine ⟨fun a b => ?_⟩
    have hswap := hcmp.swap b.1 a.1
    omega
  have htrans : IsTrans (JsString × α) fun a b => P.localeCompare a.1 b.1 ≤ 0 :=
    ⟨fun a b c => hcmp.trans a.1 b.1 c.1⟩
  rw [sortEntries, sortEntries, StableSort.insertionSort_eq_iff hperm (List.Nodup.of_map _ hnd)]
  simp only [hcmp.eq_zero_iff, and_imp]

/-- Properties whose keys are not tied are sorted in one way, however they were inserted. -/
theorem sortEntries_eq_of_perm (hcmp : P.ConsistentCompare) (hperm : l.Perm l')
    (hnd : (l.map Prod.fst).Nodup) (hl : (l.map Prod.fst).Pairwise fun a b => mayPrecede a b = true)
    (hl' : (l'.map Prod.fst).Pairwise fun a b => mayPrecede a b = true)
    (htie : (l.map Prod.fst).Pairwise fun a b => ¬ P.Tied a b) :
    sortEntries P l = sortEntries P l' := by
  rw [sortEntries_eq_iff hcmp hperm hnd]
  intro a b hzero hsub
  have hkeys := hsub.map Prod.fst
  refine (StableSort.pair_sublist_of_perm hperm (List.Nodup.of_map _ hnd) hsub).resolve_right
    fun hsub' => ?_
  have hfirst := List.pairwise_iff_forall_sublist.mp hl hkeys
  have hsecond := List.pairwise_iff_forall_sublist.mp hl' (hsub'.map Prod.fst)
  obtain ⟨ha, hb⟩ := indexPrecedes_antisymm hfirst hsecond
  exact List.pairwise_iff_forall_sublist.mp htie hkeys ⟨ha, hb, hzero⟩

end Sorting

/-! ### Values without ties -/

section NoTies

variable {P : Platform}

/-- **Without ties the order of properties does not matter.** -/
theorem stableSerialize_eq_of_reordered (hcmp : P.ConsistentCompare) {v w : Json}
    (hv : v.distinctKeys = true) (hlisted : v.listed = true) (htie : v.tieFree P = true)
    (hw : w.listed = true) (h : Json.Reordered v w) :
    stableSerialize P w = stableSerialize P v := by
  induction v using Json.induction generalizing w with
  | null => cases h with | null => rfl
  | bool b => cases h with | bool => rfl
  | num n => cases h with | num => rfl
  | str s => cases h with | str => rfl
  | arr items ih =>
    cases h with
    | @arr _ items' hitems =>
      have htexts : List.Forall₂ (fun a b => stableSerialize P a = stableSerialize P b)
          items items' := by
        refine forall₂_imp_of_mem hitems fun a ha b hb hab => (ih a ha ?_ ?_ ?_ ?_ hab).symm
        · exact Json.distinctKeysItems_iff.mp hv a ha
        · exact Json.every_arr.mp hlisted a ha
        · exact Json.every_arr.mp htie a ha
        · exact Json.every_arr.mp hw b hb
      rw [stableSerialize_arr, stableSerialize_arr, map_eq_map_iff_forall₂.mpr htexts]
  | obj entries ih =>
    cases h with
    | @obj _ entries' permuted hperm hkeys hvalues =>
      obtain ⟨hnd, hdistinct⟩ := Bool.and_eq_true_iff.mp hv
      obtain ⟨horder, hentries⟩ := Json.every_obj.mp hlisted
      obtain ⟨horder', hentries'⟩ := Json.every_obj.mp hw
      obtain ⟨hties, hfree⟩ := Json.every_obj.mp htie
      have htexts : serializeEntries P permuted = serializeEntries P entries' := by
        rw [serializeEntries_eq, serializeEntries_eq, map_eq_map_iff_forall₂]
        refine forall₂_imp_of_mem (Json.Reordered.forall₂_entry_iff.mpr ⟨hkeys, hvalues⟩)
          fun e he e' he' hentry => Prod.ext hentry.1 ?_
        have he := hperm.mem_iff.mpr he
        exact (ih e he (Json.distinctKeysEntries_iff.mp hdistinct e he) (hentries e he)
          (hfree e he) (hentries' e' he') hentry.2).symm
      have hsorted : sortEntries P (serializeEntries P entries)
          = sortEntries P (serializeEntries P entries') := by
        refine sortEntries_eq_of_perm hcmp ?_ ?_ ?_ ?_ ?_
        · exact htexts ▸ perm_serializeEntries hperm
        · exact map_fst_serializeEntries P entries ▸ of_decide_eq_true hnd
        · exact map_fst_serializeEntries P entries ▸ of_decide_eq_true horder
        · exact map_fst_serializeEntries P entries' ▸ of_decide_eq_true horder'
        · exact map_fst_serializeEntries P entries ▸ of_decide_eq_true hties
      rw [stableSerialize, stableSerialize, hsorted]

end NoTies

/-! ### Values with ties -/

section Ties

variable {P : Platform}

theorem pairwise_mayPrecede_iff {entries : List (JsString × Json)} :
    (entries.map Prod.fst).Pairwise (fun a b => mayPrecede a b = true) ↔
      (entries.map fun e => arrayIndex e.1).Pairwise fun m n => indexPrecedes m n = true := by
  rw [List.pairwise_map, List.pairwise_map]
  rfl

/-- One member of a list is written in another way. -/
theorem forall₂_append_cons {v w : Json} (h : Json.Reordered v w) (l l' : List Json) :
    List.Forall₂ Json.Reordered (l ++ v :: l') (l ++ w :: l') := by
  have hsame : ∀ l : List Json, List.Forall₂ Json.Reordered l l :=
    fun l => List.forall₂_same.mpr fun v _ => .refl v
  exact List.rel_append (hsame l) (.cons h (hsame l'))

/-- Two tied keys of an object change places, and the text shows it. -/
theorem exists_reordered_of_tied (hP : P.NumbersReadable) (hcmp : P.ConsistentCompare)
    {entries : List (JsString × Json)} (hv : (Json.obj entries).distinctKeys = true)
    (hlisted : (Json.obj entries).listed = true)
    (htie : ¬ (entries.map Prod.fst).Pairwise fun a b => ¬ P.Tied a b) :
    ∃ w, w.listed = true ∧ Json.Reordered (.obj entries) w ∧
      stableSerialize P w ≠ stableSerialize P (.obj entries) := by
  obtain ⟨horder, hentries⟩ := Json.every_obj.mp hlisted
  have hnd : (entries.map Prod.fst).Nodup := of_decide_eq_true (Bool.and_eq_true_iff.mp hv).1
  rw [List.pairwise_iff_forall_sublist] at htie
  push Not at htie
  obtain ⟨k, k', hkeys, hk, hk', hzero⟩ := htie
  obtain ⟨pair, hpair, heq⟩ := List.sublist_map_iff.mp hkeys
  obtain ⟨a, rest, rfl, rfl, hrest⟩ := List.map_eq_cons_iff.mp heq.symm
  obtain ⟨b, rfl, rfl⟩ := List.map_eq_singleton_iff.mp hrest
  obtain ⟨entries', hperm, hpair', hsame⟩ := StableSort.exists_exchange hpair
  refine ⟨.obj entries', Json.every_obj.mpr ⟨decide_eq_true ?_, fun e he => ?_⟩,
    .obj hperm rfl (List.forall₂_same.mpr fun v _ => .refl v), fun htext => ?_⟩
  · have hindices := hsame (fun e => arrayIndex e.1) (hk.trans hk'.symm)
    rw [pairwise_mayPrecede_iff, hindices, ← pairwise_mayPrecede_iff]
    exact of_decide_eq_true horder
  · exact hentries e (hperm.mem_iff.mpr he)
  · have hnd' : ((serializeEntries P entries').map Prod.fst).Nodup := by
      rw [map_fst_serializeEntries]
      exact (hperm.map Prod.fst).nodup_iff.mp hnd
    have hzero' : P.localeCompare b.1 a.1 = 0 :=
      hcmp.eq_zero_iff.mpr (hcmp.eq_zero_iff.mp hzero).symm
    have hsorted := (sortEntries_eq_iff hcmp (perm_serializeEntries hperm.symm) hnd').mp
      (sortEntries_of_obj_eq hP htext)
    have hback := hsorted _ _ hzero' (pair_sublist_serializeEntries hpair')
    refine StableSort.not_pair_sublist ?_ (pair_sublist_serializeEntries hpair) hback
    exact List.Nodup.of_map _ (map_fst_serializeEntries P entries ▸ hnd)

/-- A property of an object is written in another way, and the text shows it. -/
theorem exists_reordered_of_entry (hP : P.NumbersReadable) {entries : List (JsString × Json)}
    (hv : (Json.obj entries).distinctKeys = true) (hlisted : (Json.obj entries).listed = true)
    {e : JsString × Json} (he : e ∈ entries) {w : Json} (hw : w.listed = true)
    (hreordered : Json.Reordered e.2 w) (hne : stableSerialize P w ≠ stableSerialize P e.2) :
    ∃ w, w.listed = true ∧ Json.Reordered (.obj entries) w ∧
      stableSerialize P w ≠ stableSerialize P (.obj entries) := by
  obtain ⟨horder, hentries⟩ := Json.every_obj.mp hlisted
  have hnd : (entries.map Prod.fst).Nodup := of_decide_eq_true (Bool.and_eq_true_iff.mp hv).1
  obtain ⟨l, l', rfl⟩ := List.append_of_mem he
  have hkeys : (l ++ (e.1, w) :: l').map Prod.fst = (l ++ e :: l').map Prod.fst := by simp
  refine ⟨.obj (l ++ (e.1, w) :: l'), Json.every_obj.mpr ⟨hkeys ▸ horder, fun e' he' => ?_⟩,
    .obj (List.Perm.refl _) hkeys.symm ?_, fun htext => ?_⟩
  · rcases List.mem_append.mp he' with he' | he'
    · exact hentries e' (List.mem_append_left _ he')
    · rcases List.mem_cons.mp he' with rfl | he'
      · exact hw
      · exact hentries e' (List.mem_append_right _ (List.mem_cons_of_mem _ he'))
  · rw [List.map_append, List.map_append, List.map_cons, List.map_cons]
    exact forall₂_append_cons hreordered _ _
  · have hperm : ∀ l : List (JsString × JsString), (sortEntries P l).Perm l :=
      fun l => List.perm_insertionSort _ l
    have hsame : (serializeEntries P (l ++ (e.1, w) :: l')).Perm
        (serializeEntries P (l ++ e :: l')) :=
      (hperm _).symm.trans (sortEntries_of_obj_eq hP htext ▸ hperm _)
    have hmem := hsame.mem_iff.mp (mem_serializeEntries (e := (e.1, w)) (by simp))
    have hpair := List.inj_on_of_nodup_map (map_fst_serializeEntries P (l ++ e :: l') ▸ hnd) hmem
      (mem_serializeEntries he) rfl
    exact hne (Prod.mk.inj hpair).2

/-- A member of an array is written in another way, and the text shows it. -/
theorem exists_reordered_of_item (hP : P.NumbersReadable) {items : List Json}
    (hlisted : (Json.arr items).listed = true) {v w : Json} (hv : v ∈ items)
    (hw : w.listed = true) (hreordered : Json.Reordered v w)
    (hne : stableSerialize P w ≠ stableSerialize P v) :
    ∃ w, w.listed = true ∧ Json.Reordered (.arr items) w ∧
      stableSerialize P w ≠ stableSerialize P (.arr items) := by
  have hitems := Json.every_arr.mp hlisted
  obtain ⟨l, l', rfl⟩ := List.append_of_mem hv
  refine ⟨.arr (l ++ w :: l'), Json.every_arr.mpr fun v' hv' => ?_, .arr ?_, fun htext => ?_⟩
  · rcases List.mem_append.mp hv' with hv' | hv'
    · exact hitems v' (List.mem_append_left _ hv')
    · rcases List.mem_cons.mp hv' with rfl | hv'
      · exact hw
      · exact hitems v' (List.mem_append_right _ (List.mem_cons_of_mem _ hv'))
  · exact forall₂_append_cons hreordered l l'
  · have hmap := map_stableSerialize_of_arr_eq hP htext
    rw [List.map_append, List.map_append, List.append_cancel_left_eq] at hmap
    exact hne (List.cons.inj hmap).1

/-- **With ties the order of properties shows in the text**: some other order of insertion gives
another text. -/
theorem exists_reordered_ne (hP : P.NumbersReadable) (hcmp : P.ConsistentCompare) {v : Json}
    (hv : v.distinctKeys = true) (hlisted : v.listed = true) (htie : v.tieFree P ≠ true) :
    ∃ w, w.listed = true ∧ Json.Reordered v w ∧ stableSerialize P w ≠ stableSerialize P v := by
  induction v using Json.induction with
  | null => exact absurd rfl htie
  | bool b => exact absurd rfl htie
  | num n => exact absurd rfl htie
  | str s => exact absurd rfl htie
  | arr items ih =>
    rw [Json.tieFree, Ne, Json.every_arr] at htie
    push Not at htie
    obtain ⟨v, hmem, hties⟩ := htie
    obtain ⟨w, hw, hreordered, hne⟩ := ih v hmem (Json.distinctKeysItems_iff.mp hv v hmem)
      (Json.every_arr.mp hlisted v hmem) hties
    exact exists_reordered_of_item hP hlisted hmem hw hreordered hne
  | obj entries ih =>
    by_cases hkeys : (entries.map Prod.fst).Pairwise fun a b => ¬ P.Tied a b
    · rw [Json.tieFree, Ne, Json.every_obj, not_and] at htie
      have hentries := htie (decide_eq_true hkeys)
      push Not at hentries
      obtain ⟨e, hmem, hties⟩ := hentries
      have hdistinct := Json.distinctKeysEntries_iff.mp (Bool.and_eq_true_iff.mp hv).2
      obtain ⟨w, hw, hreordered, hne⟩ :=
        ih e hmem (hdistinct e hmem) ((Json.every_obj.mp hlisted).2 e hmem) hties
      exact exists_reordered_of_entry hP hv hlisted hmem hw hreordered hne
    · exact exists_reordered_of_tied hP hcmp hv hlisted hkeys

end Ties

/-! ### When the order of properties does not matter -/

/-- The order of properties does not matter to a value: inserted in any other order, they give the
same text and the same hash, and a replay with them is answered with the stored order. -/
def OrderIgnored (P : Platform) (v : Json) : Prop :=
  ∀ w, w.listed = true → Json.Reordered v w →
    stableSerialize P w = stableSerialize P v ∧ hashPayload P w = hashPayload P v ∧
    ∀ (payload payload' : CreateOrderInput) (key : String) (orders : Collection)
      (order : OrderRecord), payload.json = v → payload'.json = w →
      OrderRepository.findByRequestId orders key = some order →
      order.payloadHash = hashPayload P payload.json →
      CreateOrder.step P orders ⟨payload', key, .lookup⟩ (.find .ok) = some
        { orders := orders
          call := ⟨payload', key, .returned (.ok { order := order, created := false })⟩
          effect := none }

/-- **The order of properties does not matter exactly if no keys are tied**: if no object, at any
depth, has two keys that can change places and compare as equal. -/
theorem orderIgnored_iff {P : Platform} (hP : P.NumbersReadable) (hcmp : P.ConsistentCompare)
    {v : Json} (hv : v.distinctKeys = true) (hlisted : v.listed = true) :
    OrderIgnored P v ↔ v.tieFree P = true := by
  constructor
  · intro h
    by_contra htie
    obtain ⟨w, hw, hreordered, hne⟩ := exists_reordered_ne hP hcmp hv hlisted htie
    exact hne (h w hw hreordered).1
  · intro htie w hw hreordered
    have htext := stableSerialize_eq_of_reordered hcmp hv hlisted htie hw hreordered
    have hhash : hashPayload P w = hashPayload P v := congrArg P.sha256 htext
    refine ⟨htext, hhash, ?_⟩
    rintro payload payload' key orders order rfl rfl hfound hpayload
    simp [CreateOrder.step, CreateOrder.afterLookup, hfound, hpayload, hhash, CreateOrder.finish]

/-! ### A platform on which two spellings of one letter compare as equal -/

/-- Canonical decomposition, of the one letter that has any here. -/
def decompose (s : JsString) : JsString :=
  s.flatMap fun u => if u = 0xE9 then [0x65, 0x301] else [u]

/-- `localeCompare` compares decomposed strings. -/
def Platform.decomposing : Platform :=
  { Platform.reference with
    localeCompare := fun a b => referenceLocaleCompare (decompose a) (decompose b) }

theorem Platform.decomposing_numbersReadable : Platform.decomposing.NumbersReadable :=
  ⟨Platform.reference_numbersReadable.injective, Platform.reference_numbersReadable.ne_nil,
    Platform.reference_numbersReadable.isNumeral⟩

theorem Platform.decomposing_consistentCompare : Platform.decomposing.ConsistentCompare where
  swap := fun a b => Platform.reference_consistentCompare.swap (decompose a) (decompose b)
  trans := fun a b c =>
    Platform.reference_consistentCompare.trans (decompose a) (decompose b) (decompose c)

/-- A create body with two more properties, named `é` in two spellings. -/
def accentedPayload (swapped : Bool) : CreateOrderInput where
  json := .obj
    ([(js "customerId", .str (js "c-1")),
      (js "items", .arr [(OrderItem.of (js "A") (.finite 1)).json]),
      (js "totalAmount", .num (.finite 10))] ++
      if swapped then [([0x65, 0x301], .num (.finite 2)), ([0xE9], .num (.finite 1))]
      else [([0xE9], .num (.finite 1)), ([0x65, 0x301], .num (.finite 2))])
  customerId := js "c-1"
  items := [OrderItem.of (js "A") (.finite 1)]
  totalAmount := .finite 10
  customerId_eq := rfl
  items_eq := rfl
  totalAmount_eq := rfl
  distinct := by
    cases swapped <;> decide

theorem orderIgnored_samplePayload : OrderIgnored .decomposing (samplePayload 10).json ∧
    ¬ OrderIgnored .decomposing (accentedPayload false).json := by
  have hiff : ∀ v : Json, v.distinctKeys = true → v.listed = true →
      (OrderIgnored .decomposing v ↔ v.tieFree .decomposing = true) := by
    intro v hv hlisted
    exact orderIgnored_iff Platform.decomposing_numbersReadable
      Platform.decomposing_consistentCompare hv hlisted
  refine ⟨(hiff _ (samplePayload 10).distinct (by decide)).mpr (by decide), fun h => ?_⟩
  exact absurd ((hiff _ (accentedPayload false).distinct (by decide)).mp h) (by decide)

/-- **The order of properties may matter**: a replay whose body differs from the first one in the
order of two properties is turned away as a conflict. -/
theorem order_not_ignored :
    Json.Reordered (accentedPayload false).json (accentedPayload true).json ∧
    (accentedPayload false).json.listed = true ∧ (accentedPayload true).json.listed = true ∧
    stableSerialize .decomposing (accentedPayload true).json
      ≠ stableSerialize .decomposing (accentedPayload false).json ∧
    hashPayload .decomposing (accentedPayload true).json
      ≠ hashPayload .decomposing (accentedPayload false).json ∧
    ∃ s, Run.run (Service.step .decomposing .default) Service.init
        (Service.creating 0 (accentedPayload false) "key" "id" "2024-05-01T10:00:00.000Z" ++
          [.invoke (.createOrder (accentedPayload true) "key"), .resume 1 (.find .ok)]) = some s ∧
      s.activations.map Call.errorName = [none, some "IdempotencyConflictError"] := by
  refine ⟨?_, by decide, by decide, by decide, by decide, ?_⟩
  · refine .obj (List.Perm.append_left _ (List.Perm.swap _ _ [])) rfl ?_
    exact List.forall₂_same.mpr fun v _ => .refl v
  · exact Option.map_eq_some_iff.mp (by decide)

end OrderProcessing
