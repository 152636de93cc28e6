import OrderProcessing.ForMathlib.UniqueReading
import OrderProcessing.Hash

/-!
# The serialization loses only what it should

Two JSON values with one `stableSerialize` text are the same value, up to the order of the
properties of an object and up to the numbers that are not finite, which are written like `null`.
What is needed of the platform is that the texts of finite numbers differ and consist of digits,
signs, points and exponent marks. The order in which `localeCompare` puts the keys does not matter.

## Main definitions

* `unquote` — reads the inside of a quoted string; it undoes `quoteUnits`
* `Json.Same` — equality up to the order of properties and the numbers that are not finite
* `Platform.NumbersReadable` — what is assumed of the texts of numbers

## Main results

* `stringify_unique` — quoted strings can be told apart, whatever follows
* `isWellFormed_stableSerialize` — lone surrogates are escaped, so nothing is lost in the encoding
* `same_of_stableSerialize_eq`
-/

namespace OrderProcessing

open UniqueReading

/-! ### Quoted strings -/

/-- The value of a hexadecimal digit in lower case. -/
def unhexDigit (u : UInt16) : ℕ := if u.toNat < 58 then u.toNat - 48 else u.toNat - 87

/-- The unit of four hexadecimal digits. -/
def unhex (a b c d : UInt16) : UInt16 :=
  UInt16.ofNat (4096 * unhexDigit a + 256 * unhexDigit b + 16 * unhexDigit c + unhexDigit d)

/-- The unit that a backslash in front of `e` stands for, `u` apart. -/
def unescape (e : UInt16) : UInt16 :=
  if e = 0x62 then 0x08
  else if e = 0x74 then 0x09
  else if e = 0x6E then 0x0A
  else if e = 0x66 then 0x0C
  else if e = 0x72 then 0x0D
  else e

/-- Read up to the closing quote: the string, and what follows. -/
def unquote : JsString → Option (JsString × JsString)
  | [] => none
  | u :: rest =>
    if u = 0x22 then some ([], rest)
    else if u = 0x5C then
      match rest with
      | [] => none
      | e :: rest =>
        if e = 0x75 then
          match rest with
          | a :: b :: c :: d :: rest => (unquote rest).map (Prod.map (unhex a b c d :: ·) id)
          | _ => none
        else (unquote rest).map (Prod.map (unescape e :: ·) id)
    else (unquote rest).map (Prod.map (u :: ·) id)

theorem unhexDigit_hexDigit {n : ℕ} (hn : n < 16) : unhexDigit (hexDigit n) = n := by
  have hall : ∀ m : Fin 16, unhexDigit (hexDigit m) = m := by decide
  exact hall ⟨n, hn⟩

theorem unhex_hexDigits (u : UInt16) :
    unhex (hexDigit (u.toNat / 4096)) (hexDigit (u.toNat / 256 % 16))
      (hexDigit (u.toNat / 16 % 16)) (hexDigit (u.toNat % 16)) = u := by
  have hlt := u.toNat_lt
  rw [unhex, unhexDigit_hexDigit (by omega), unhexDigit_hexDigit (by omega),
    unhexDigit_hexDigit (by omega), unhexDigit_hexDigit (by omega)]
  have hsum : 4096 * (u.toNat / 4096) + 256 * (u.toNat / 256 % 16) + 16 * (u.toNat / 16 % 16)
      + u.toNat % 16 = u.toNat := by omega
  rw [hsum, UInt16.ofNat_toNat]

section Unquote

variable {t : JsString}

theorem unquote_quote (t : JsString) : unquote (0x22 :: t) = some ([], t) := by
  rw [unquote.eq_def]
  rfl

theorem unquote_unicode (a b c d : UInt16) (t : JsString) :
    unquote (0x5C :: 0x75 :: a :: b :: c :: d :: t)
      = (unquote t).map (Prod.map (unhex a b c d :: ·) id) := by
  rw [unquote.eq_def]
  rfl

theorem unquote_escape {e : UInt16} (he : e ≠ 0x75) (t : JsString) :
    unquote (0x5C :: e :: t) = (unquote t).map (Prod.map (unescape e :: ·) id) := by
  rw [unquote.eq_def]
  exact if_neg he

/-- A unit that needs no escape is read as itself. -/
theorem unquote_cons {u : UInt16} (hquote : u ≠ 0x22) (hback : u ≠ 0x5C) (t : JsString) :
    unquote (u :: t) = (unquote t).map (Prod.map (u :: ·) id) := by
  rw [unquote.eq_def]
  exact (if_neg hquote).trans (if_neg hback)

theorem unquote_quoteUnit (u : UInt16) (t : JsString) :
    unquote (quoteUnit u ++ t) = (unquote t).map (Prod.map (u :: ·) id) := by
  rw [quoteUnit]
  split_ifs with h₁ h₂ h₃ h₄ h₅ h₆ h₇ h₈
  · subst h₁; exact unquote_escape (e := 0x62) (by decide) t
  · subst h₂; exact unquote_escape (e := 0x74) (by decide) t
  · subst h₃; exact unquote_escape (e := 0x6E) (by decide) t
  · subst h₄; exact unquote_escape (e := 0x66) (by decide) t
  · subst h₅; exact unquote_escape (e := 0x72) (by decide) t
  · subst h₆; exact unquote_escape (e := 0x22) (by decide) t
  · subst h₇; exact unquote_escape (e := 0x5C) (by decide) t
  · rw [unicodeEscape, List.cons_append, List.cons_append, List.cons_append, List.cons_append,
      List.cons_append, List.cons_append, List.nil_append, unquote_unicode, unhex_hexDigits]
  · exact unquote_cons h₆ h₇ t

end Unquote

theorem ne_of_isLead {u : UInt16} (h : isLead u = true) : u ≠ 0x22 ∧ u ≠ 0x5C := by
  constructor <;> (rintro rfl; revert h; decide)

theorem ne_of_isTrail {u : UInt16} (h : isTrail u = true) : u ≠ 0x22 ∧ u ≠ 0x5C := by
  constructor <;> (rintro rfl; revert h; decide)

/-- `unquote` undoes `quoteUnits`, whatever follows the closing quote. -/
theorem unquote_quoteUnits (s r : JsString) :
    unquote (quoteUnits s ++ 0x22 :: r) = some (s, r) := by
  induction s using quoteUnits.induct with
  | case1 => exact unquote_quote r
  | case2 u =>
    rw [quoteUnits, unquote_quoteUnit, unquote_quote]
    rfl
  | case3 u v rest hpair ih =>
    obtain ⟨hu, hv⟩ := Bool.and_eq_true_iff.mp hpair
    rw [quoteUnits, if_pos hpair, List.cons_append, List.cons_append,
      unquote_cons (ne_of_isLead hu).1 (ne_of_isLead hu).2,
      unquote_cons (ne_of_isTrail hv).1 (ne_of_isTrail hv).2, ih]
    rfl
  | case4 u v rest hpair ih =>
    rw [quoteUnits, if_neg hpair, List.append_assoc, unquote_quoteUnit, ih]
    rfl

/-- **Quoted strings can be told apart**, and show where they end. -/
theorem stringify_unique {s s' r r' : JsString} (h : stringify s ++ r = stringify s' ++ r') :
    s = s' ∧ r = r' := by
  have hinside : quoteUnits s ++ 0x22 :: r = quoteUnits s' ++ 0x22 :: r' := by
    simpa [stringify] using h
  have hread := congrArg unquote hinside
  rw [unquote_quoteUnits, unquote_quoteUnits] at hread
  exact Prod.mk.inj (Option.some.inj hread)

/-! ### The kinds of values -/

/-- What the first unit of a serialized value shows. -/
inductive Kind
  | null
  | bool
  | num
  | str
  | arr
  | obj
  deriving DecidableEq

/-- The numbers that are not finite are written like `null`. -/
def Json.kind : Json → Kind
  | .null => .null
  | .bool _ => .bool
  | .num (.finite _) => .num
  | .num _ => .null
  | .str _ => .str
  | .arr _ => .arr
  | .obj _ => .obj

/-- The values of a kind. -/
theorem Json.of_kind (v : Json) : match v.kind with
    | .null => True
    | .bool => ∃ b, v = .bool b
    | .num => ∃ q, v = .num (.finite q)
    | .str => ∃ s, v = .str s
    | .arr => ∃ items, v = .arr items
    | .obj => ∃ entries, v = .obj entries := by
  rcases v with _ | b | (q | _ | _) | s | items | entries
  · trivial
  · exact ⟨b, rfl⟩
  · exact ⟨q, rfl⟩
  · trivial
  · trivial
  · exact ⟨s, rfl⟩
  · exact ⟨items, rfl⟩
  · exact ⟨entries, rfl⟩

/-- The kind of a value, from the first unit of its text. -/
def Kind.ofUnit (u : UInt16) : Kind :=
  if u = 0x6E then .null
  else if u = 0x74 ∨ u = 0x66 then .bool
  else if u = 0x22 then .str
  else if u = 0x5B then .arr
  else if u = 0x7B then .obj
  else .num

/-- A comma or a closing bracket: what may follow a value inside another one. -/
def IsStop (u : UInt16) : Prop := u = 0x2C ∨ u = 0x5D ∨ u = 0x7D

/-- A digit, a sign, a point or an exponent mark. -/
def isNumeral (u : UInt16) : Bool := (0x30 ≤ u && u ≤ 0x39) || [0x2B, 0x2D, 0x2E, 0x65].contains u

/-- The texts of two finite numbers differ, and consist of numerals. -/
structure Platform.NumbersReadable (P : Platform) : Prop where
  injective : Function.Injective P.numberToString
  ne_nil : ∀ q, P.numberToString q ≠ []
  isNumeral : ∀ q, ∀ u ∈ P.numberToString q, isNumeral u = true

theorem not_isStop_of_isNumeral {u : UInt16} (h : isNumeral u = true) : ¬ IsStop u := by
  rintro (rfl | rfl | rfl) <;> exact absurd h (by decide)

theorem lt_of_isNumeral {u : UInt16} (h : isNumeral u = true) : u < 0x80 := by
  rw [isNumeral, Bool.or_eq_true, Bool.and_eq_true] at h
  rcases h with ⟨-, hle⟩ | hmem
  · have hle : u ≤ 0x39 := of_decide_eq_true hle
    exact UInt16.lt_of_le_of_lt hle (by decide)
  · have hsymbol : u = 0x2B ∨ u = 0x2D ∨ u = 0x2E ∨ u = 0x65 := by simpa using hmem
    rcases hsymbol with rfl | rfl | rfl | rfl <;> decide

theorem Kind.ofUnit_of_isNumeral {u : UInt16} (h : isNumeral u = true) : Kind.ofUnit u = .num := by
  have hne : ∀ v : UInt16, isNumeral v = false → u ≠ v := by
    rintro v hv rfl
    rw [h] at hv
    exact Bool.noConfusion hv
  rw [ofUnit, if_neg (hne _ (by decide)),
    if_neg (not_or.mpr ⟨hne _ (by decide), hne _ (by decide)⟩), if_neg (hne _ (by decide)),
    if_neg (hne _ (by decide)), if_neg (hne _ (by decide))]

/-- The first unit of a serialized value shows its kind, and is no stop. -/
theorem stableSerialize_head {P : Platform} (hP : P.NumbersReadable) (v : Json) :
    ∃ a s, stableSerialize P v = a :: s ∧ Kind.ofUnit a = v.kind ∧ ¬ IsStop a := by
  have hnull : Kind.ofUnit 0x6E = .null ∧ ¬ IsStop 0x6E := by simp [Kind.ofUnit, IsStop]
  rcases v with _ | b | n | s | items | entries
  · exact ⟨0x6E, js "ull", rfl, hnull⟩
  · cases b with
    | false => exact ⟨0x66, js "alse", rfl, by decide, by simp [IsStop]⟩
    | true => exact ⟨0x74, js "rue", rfl, by decide, by simp [IsStop]⟩
  · rcases n with q | negative | _
    · obtain ⟨a, s, hq⟩ := List.exists_cons_of_ne_nil (hP.ne_nil q)
      have ha := hP.isNumeral q a (by simp [hq])
      exact ⟨a, s, hq, Kind.ofUnit_of_isNumeral ha, not_isStop_of_isNumeral ha⟩
    · exact ⟨0x6E, js "ull", rfl, hnull⟩
    · exact ⟨0x6E, js "ull", rfl, hnull⟩
  · exact ⟨0x22, _, rfl, rfl, by simp [IsStop]⟩
  · exact ⟨0x5B, _, stableSerialize_arr P items, rfl, by simp [IsStop]⟩
  · exact ⟨0x7B, _, stableSerialize_obj P entries, rfl, by simp [IsStop]⟩

/-! ### Well-formed texts -/

/-- An ASCII unit is no surrogate. -/
theorem not_surrogate_of_lt {u : UInt16} (h : u < 0x80) : isLead u = false ∧ isTrail u = false := by
  have hlt : u.toNat < 128 := h
  constructor
  · rw [isLead, Bool.and_eq_false_iff]
    left
    simp only [decide_eq_false_iff_not, UInt16.le_iff_toNat_le, UInt16.reduceToNat]
    omega
  · rw [isTrail, Bool.and_eq_false_iff]
    left
    simp only [decide_eq_false_iff_not, UInt16.le_iff_toNat_le, UInt16.reduceToNat]
    omega

theorem isWellFormed_cons {u : UInt16} (hlead : isLead u = false) (htrail : isTrail u = false)
    (s : JsString) : isWellFormed (u :: s) = isWellFormed s := by
  cases s with
  | nil => simp [isWellFormed, hlead, htrail]
  | cons v s => simp [isWellFormed, hlead, htrail]

theorem isWellFormed_of_ascii {s : JsString} (h : ∀ u ∈ s, u < 0x80) : isWellFormed s = true := by
  induction s with
  | nil => rfl
  | cons u s ih =>
    obtain ⟨hlead, htrail⟩ := not_surrogate_of_lt (h u (List.mem_cons_self ..))
    rw [isWellFormed_cons hlead htrail]
    exact ih fun v hv => h v (List.mem_cons_of_mem _ hv)

theorem isWellFormed_append {s t : JsString} (hs : isWellFormed s = true)
    (ht : isWellFormed t = true) : isWellFormed (s ++ t) = true := by
  induction s using isWellFormed.induct with
  | case1 => exact ht
  | case2 u =>
    rw [isWellFormed, Bool.and_eq_true, Bool.not_eq_true', Bool.not_eq_true'] at hs
    rw [List.singleton_append, isWellFormed_cons hs.1 hs.2, ht]
  | case3 u v rest hpair ih =>
    rw [isWellFormed, if_pos hpair] at hs
    rw [List.cons_append, List.cons_append, isWellFormed, if_pos hpair]
    exact ih hs
  | case4 u v rest hpair ih =>
    rw [isWellFormed, if_neg hpair, Bool.and_eq_true, Bool.and_eq_true, Bool.not_eq_true',
      Bool.not_eq_true'] at hs
    obtain ⟨⟨hlead, htrail⟩, hs⟩ := hs
    rw [List.cons_append, isWellFormed_cons hlead htrail]
    exact ih hs

theorem hexDigit_lt {n : ℕ} (hn : n < 16) : hexDigit n < 0x80 := by
  have hall : ∀ m : Fin 16, hexDigit m < 0x80 := by decide
  exact hall ⟨n, hn⟩

theorem isWellFormed_unicodeEscape (u : UInt16) : isWellFormed (unicodeEscape u) = true := by
  have hlt := u.toNat_lt
  refine isWellFormed_of_ascii ?_
  simp only [unicodeEscape, List.forall_mem_cons]
  exact ⟨by decide, by decide, hexDigit_lt (by omega), hexDigit_lt (by omega),
    hexDigit_lt (by omega), hexDigit_lt (by omega), List.forall_mem_nil _⟩

/-- A surrogate that is not half of a pair is escaped. -/
theorem isWellFormed_quoteUnit (u : UInt16) : isWellFormed (quoteUnit u) = true := by
  rw [quoteUnit]
  split_ifs with h₁ h₂ h₃ h₄ h₅ h₆ h₇ h₈
  · decide
  · decide
  · decide
  · decide
  · decide
  · decide
  · decide
  · exact isWellFormed_unicodeEscape u
  · obtain ⟨hrest, htrail⟩ := not_or.mp (mt Bool.or_eq_true_iff.mpr h₈)
    obtain ⟨-, hlead⟩ := not_or.mp (mt Bool.or_eq_true_iff.mpr hrest)
    rw [isWellFormed_cons (Bool.eq_false_of_not_eq_true hlead)
      (Bool.eq_false_of_not_eq_true htrail)]
    rfl

theorem isWellFormed_quoteUnits (s : JsString) : isWellFormed (quoteUnits s) = true := by
  induction s using quoteUnits.induct with
  | case1 => rfl
  | case2 u => exact isWellFormed_quoteUnit u
  | case3 u v rest hpair ih => rw [quoteUnits, if_pos hpair, isWellFormed, if_pos hpair, ih]
  | case4 u v rest hpair ih =>
    rw [quoteUnits, if_neg hpair]
    exact isWellFormed_append (isWellFormed_quoteUnit u) ih

theorem isWellFormed_stringify (s : JsString) : isWellFormed (stringify s) = true := by
  rw [stringify, isWellFormed_cons (by decide) (by decide)]
  exact isWellFormed_append (isWellFormed_quoteUnits s) (by decide)

theorem isWellFormed_joinComma {items : List JsString}
    (h : ∀ s ∈ items, isWellFormed s = true) : isWellFormed (joinComma items) = true := by
  induction items with
  | nil => rfl
  | cons s items ih =>
    have hs := h s (List.mem_cons_self ..)
    have hrest := ih fun t ht => h t (List.mem_cons_of_mem _ ht)
    cases items with
    | nil => simpa [joinComma] using hs
    | cons t items =>
      have hjoin : joinComma (s :: t :: items) = s ++ 0x2C :: joinComma (t :: items) := by
        simp [joinComma]
      rw [hjoin]
      refine isWellFormed_append hs ?_
      rw [isWellFormed_cons (by decide) (by decide), hrest]

/-- **A serialized value contains no lone surrogate**, whatever its strings contain. -/
theorem isWellFormed_stableSerialize {P : Platform} (hP : P.NumbersReadable) (v : Json) :
    isWellFormed (stableSerialize P v) = true := by
  have hnull : isWellFormed (js "null") = true := by decide
  induction v using Json.induction with
  | null => exact hnull
  | bool b =>
    cases b with
    | false => exact (by decide : isWellFormed (js "false") = true)
    | true => exact (by decide : isWellFormed (js "true") = true)
  | num n =>
    rcases n with q | negative | _
    · exact isWellFormed_of_ascii fun u hu => lt_of_isNumeral (hP.isNumeral q u hu)
    · exact hnull
    · exact hnull
  | str s => exact isWellFormed_stringify s
  | arr items ih =>
    rw [stableSerialize_arr, isWellFormed_cons (by decide) (by decide)]
    refine isWellFormed_append (isWellFormed_joinComma ?_) (by decide)
    intro s hs
    obtain ⟨v, hv, rfl⟩ := List.mem_map.mp hs
    exact ih v hv
  | obj entries ih =>
    rw [stableSerialize_obj, isWellFormed_cons (by decide) (by decide)]
    refine isWellFormed_append (isWellFormed_joinComma ?_) (by decide)
    intro s hs
    obtain ⟨e, he, rfl⟩ := List.mem_map.mp hs
    have hmem : e ∈ entries := (List.perm_insertionSort _ entries).mem_iff.mp he
    refine isWellFormed_append (isWellFormed_stringify e.1) ?_
    rw [isWellFormed_cons (by decide) (by decide)]
    exact ih e hmem

/-- The payload hash stands for the serialized payload. -/
theorem stableSerialize_eq_of_hashPayload_eq {P : Platform} (hsha : P.CollisionFree)
    (hP : P.NumbersReadable) {v w : Json} (h : hashPayload P v = hashPayload P w) :
    stableSerialize P v = stableSerialize P w :=
  hsha (isWellFormed_stableSerialize hP v) (isWellFormed_stableSerialize hP w) h

/-! ### Equality up to the order of properties -/

theorem forall₂_pair_iff {α β : Type} {R : β → β → Prop} {l l' : List (α × β)} :
    List.Forall₂ (fun e e' => e.1 = e'.1 ∧ R e.2 e'.2) l l' ↔
      l.map Prod.fst = l'.map Prod.fst ∧ List.Forall₂ R (l.map Prod.snd) (l'.map Prod.snd) := by
  induction l generalizing l' with
  | nil => cases l' <;> simp
  | cons e l ih =>
    cases l' with
    | nil => simp
    | cons e' l' =>
      simp only [List.forall₂_cons, ih, List.map_cons, List.cons.injEq]
      tauto

/-- Equality up to the order of the properties of objects and the numbers that are not finite. -/
inductive Json.Same : Json → Json → Prop
  | null {v w} : v.kind = .null → w.kind = .null → Same v w
  | bool (b : Bool) : Same (.bool b) (.bool b)
  | num (q : ℚ) : Same (.num (.finite q)) (.num (.finite q))
  | str (s : JsString) : Same (.str s) (.str s)
  | arr {items items'} : List.Forall₂ Same items items' → Same (.arr items) (.arr items')
  | obj {entries entries' sorted sorted' : List (JsString × Json)} :
      sorted.Perm entries → sorted'.Perm entries' →
      sorted.map Prod.fst = sorted'.map Prod.fst →
      List.Forall₂ Same (sorted.map Prod.snd) (sorted'.map Prod.snd) →
      Same (.obj entries) (.obj entries')

namespace Json.Same

variable {v w : Json}

/-- Equal properties. -/
def Entry (e e' : JsString × Json) : Prop := e.1 = e'.1 ∧ Same e.2 e'.2

theorem forall₂_entry_iff {l l' : List (JsString × Json)} :
    List.Forall₂ Entry l l' ↔
      l.map Prod.fst = l'.map Prod.fst ∧ List.Forall₂ Same (l.map Prod.snd) (l'.map Prod.snd) :=
  forall₂_pair_iff

theorem exists_mem_of_forall₂ {α β : Type} {R : α → β → Prop} {l : List α} {m : List β} {a : α}
    (h : List.Forall₂ R l m) (ha : a ∈ l) : ∃ b ∈ m, R a b := by
  induction h with
  | nil => simp at ha
  | cons hR _ ih =>
    rcases List.mem_cons.mp ha with rfl | ha
    · exact ⟨_, List.mem_cons_self .., hR⟩
    · obtain ⟨b, hb, hab⟩ := ih ha
      exact ⟨b, List.mem_cons_of_mem _ hb, hab⟩

/-- Equal objects have equal properties, if no key is listed twice. -/
theorem get? (h : Same v w) (hw : w.distinctKeys = true) {key : JsString} {a : Json}
    (ha : v.get? key = some a) : ∃ b, w.get? key = some b ∧ Same a b := by
  cases h with
  | @obj entries entries' sorted sorted' hperm hperm' hkeys hvalues =>
    obtain ⟨hnd, -⟩ : (entries'.map Prod.fst).Nodup ∧ _ := by
      simpa [distinctKeys] using hw
    have hmem := hperm.mem_iff.mpr (mem_of_lookup ha)
    obtain ⟨⟨key', b⟩, hb, rfl, hab⟩ :=
      exists_mem_of_forall₂ (forall₂_entry_iff.mpr ⟨hkeys, hvalues⟩) hmem
    exact ⟨b, lookup_of_mem hnd (hperm'.mem_iff.mp hb), hab⟩
  | null hv =>
    obtain ⟨_, rfl⟩ : ∃ entries, v = .obj entries := by
      cases v <;> simp [Json.get?] at ha ⊢
    exact Kind.noConfusion hv
  | _ => simp [Json.get?] at ha

theorem str_inj {s s' : JsString} (h : Same (.str s) (.str s')) : s' = s := by
  cases h with
  | null hv => exact Kind.noConfusion hv
  | str => rfl

/-- Finite numbers are kept. -/
theorem num_inj {n n' : JsNumber} (hn : n.isFinite = true) (h : Same (.num n) (.num n')) :
    n' = n := by
  cases h with
  | null hv =>
    cases n with
    | finite q => exact Kind.noConfusion hv
    | _ => exact Bool.noConfusion hn
  | num => rfl

theorem arr_inj {items items' : List Json} (h : Same (.arr items) (.arr items')) :
    List.Forall₂ Same items items' := by
  cases h with
  | null hv => exact Kind.noConfusion hv
  | arr hitems => exact hitems

end Json.Same

/-! ### Reading a serialized value -/

section Reads

variable {P : Platform}

theorem entryText_readsAs {R : Json → Json → Prop} {e : JsString × Json}
    (he : ReadsAs IsStop (stableSerialize P) R e.2) :
    ReadsAs IsStop (entryText P) (fun e e' => e.1 = e'.1 ∧ R e.2 e'.2) e := by
  intro e' r r' hr hr' h
  rw [entryText, entryText, List.append_assoc, List.append_assoc] at h
  obtain ⟨hkey, hrest⟩ := stringify_unique h
  obtain ⟨hvalue, heq⟩ := he e'.2 r r' hr hr' (List.cons.inj hrest).2
  exact ⟨⟨hkey, hvalue⟩, heq⟩

theorem entryText_head (e : JsString × Json) : ∃ a s, entryText P e = a :: s ∧ a ≠ 0x7D :=
  ⟨0x22, _, rfl, by decide⟩

theorem kind_eq_of_append_eq (hP : P.NumbersReadable) {v w : Json} {r r' : JsString}
    (h : stableSerialize P v ++ r = stableSerialize P w ++ r') : v.kind = w.kind := by
  obtain ⟨a, s, hv, hkv, -⟩ := stableSerialize_head hP v
  obtain ⟨b, t, hw, hkw, -⟩ := stableSerialize_head hP w
  rw [hv, hw, List.cons_append, List.cons_append, List.cons.injEq] at h
  rw [← hkv, ← hkw, h.1]

theorem stableSerialize_of_kind_null {v : Json} (h : v.kind = .null) :
    stableSerialize P v = js "null" := by
  rcases v with _ | _ | (_ | _ | _) | _ | _ | _
  all_goals first | rfl | exact Kind.noConfusion h

theorem isStop_comma : IsStop 0x2C := Or.inl rfl

theorem isStop_bracket : IsStop 0x5D := Or.inr (Or.inl rfl)

theorem isStop_brace : IsStop 0x7D := Or.inr (Or.inr rfl)

/-- Two arrays with one text have members with one text. -/
theorem forall₂_of_arr_append_eq (hP : P.NumbersReadable) {R : Json → Json → Prop}
    {items items' : List Json} {r r' : JsString}
    (hitems : ∀ v ∈ items, ReadsAs IsStop (stableSerialize P) R v)
    (h : stableSerialize P (.arr items) ++ r = stableSerialize P (.arr items') ++ r') :
    List.Forall₂ R items items' ∧ r = r' := by
  rw [stableSerialize_arr, stableSerialize_arr, List.cons_append, List.cons_append,
    List.cons.injEq, List.append_assoc, List.append_assoc] at h
  have hhead : ∀ v, ∃ a s, stableSerialize P v = a :: s ∧ a ≠ 0x5D := by
    intro v
    obtain ⟨a, s, hv, -, hstop⟩ := stableSerialize_head hP v
    exact ⟨a, s, hv, fun ha => hstop (ha ▸ isStop_bracket)⟩
  have hjoined : joined 0x2C (stableSerialize P) items ++ 0x5D :: r
      = joined 0x2C (stableSerialize P) items' ++ 0x5D :: r' := h.2
  exact joined_unique (by decide) isStop_comma isStop_bracket hhead hitems hjoined

/-- Two objects with one text have the same keys in the sorted order, and values with one text. -/
theorem forall₂_of_obj_append_eq {R : Json → Json → Prop}
    {entries entries' : List (JsString × Json)} {r r' : JsString}
    (hentries : ∀ e ∈ entries, ReadsAs IsStop (stableSerialize P) R e.2)
    (h : stableSerialize P (.obj entries) ++ r = stableSerialize P (.obj entries') ++ r') :
    List.Forall₂ (fun e e' => e.1 = e'.1 ∧ R e.2 e'.2) (sortEntries P entries)
      (sortEntries P entries') ∧ r = r' := by
  rw [stableSerialize_obj, stableSerialize_obj, List.cons_append, List.cons_append,
    List.cons.injEq, List.append_assoc, List.append_assoc] at h
  have hread : ∀ e ∈ sortEntries P entries, ReadsAs IsStop (entryText P)
      (fun e e' => e.1 = e'.1 ∧ R e.2 e'.2) e := by
    intro e he
    exact entryText_readsAs (hentries e ((List.perm_insertionSort _ entries).mem_iff.mp he))
  have hjoined : joined 0x2C (entryText P) (sortEntries P entries) ++ 0x7D :: r
      = joined 0x2C (entryText P) (sortEntries P entries') ++ 0x7D :: r' := h.2
  exact joined_unique (by decide) isStop_comma isStop_brace entryText_head hread hjoined

/-! One lemma for each kind of value. What follows the text decides on nothing but where it ends. -/

/-- `null`, and the numbers that are written like it. -/
theorem readsAs_of_kind_null (hP : P.NumbersReadable) {v : Json} (hv : v.kind = .null) :
    ReadsAs IsStop (stableSerialize P) Json.Same v := by
  intro w r r' _ _ h
  have hw : w.kind = .null := (kind_eq_of_append_eq hP h).symm.trans hv
  rw [stableSerialize_of_kind_null hv, stableSerialize_of_kind_null hw] at h
  exact ⟨.null hv hw, List.append_cancel_left h⟩

theorem readsAs_bool (hP : P.NumbersReadable) (b : Bool) :
    ReadsAs IsStop (stableSerialize P) Json.Same (.bool b) := by
  intro w r r' _ _ h
  have hw := w.of_kind
  rw [← kind_eq_of_append_eq hP h] at hw
  obtain ⟨c, rfl⟩ := hw
  cases b <;> cases c
  · exact ⟨.bool false, List.append_cancel_left h⟩
  · exact absurd (List.cons.inj h).1 (by decide)
  · exact absurd (List.cons.inj h).1 (by decide)
  · exact ⟨.bool true, List.append_cancel_left h⟩

theorem readsAs_finite (hP : P.NumbersReadable) (q : ℚ) :
    ReadsAs IsStop (stableSerialize P) Json.Same (.num (.finite q)) := by
  intro w r r' hr hr' h
  have hw := w.of_kind
  rw [← kind_eq_of_append_eq hP h] at hw
  obtain ⟨q', rfl⟩ := hw
  have hnot : ∀ q, ∀ u ∈ P.numberToString q, ¬ IsStop u := by
    intro q u hu
    exact not_isStop_of_isNumeral (hP.isNumeral q u hu)
  obtain ⟨htext, heq⟩ := eq_of_append_eq (hnot q) (hnot q') hr hr' h
  obtain rfl := hP.injective htext
  exact ⟨.num q, heq⟩

theorem readsAs_str (hP : P.NumbersReadable) (s : JsString) :
    ReadsAs IsStop (stableSerialize P) Json.Same (.str s) := by
  intro w r r' _ _ h
  have hw := w.of_kind
  rw [← kind_eq_of_append_eq hP h] at hw
  obtain ⟨s', rfl⟩ := hw
  obtain ⟨rfl, heq⟩ := stringify_unique h
  exact ⟨.str s, heq⟩

theorem readsAs_arr (hP : P.NumbersReadable) {items : List Json}
    (hitems : ∀ v ∈ items, ReadsAs IsStop (stableSerialize P) Json.Same v) :
    ReadsAs IsStop (stableSerialize P) Json.Same (.arr items) := by
  intro w r r' _ _ h
  have hw := w.of_kind
  rw [← kind_eq_of_append_eq hP h] at hw
  obtain ⟨items', rfl⟩ := hw
  obtain ⟨hsame, heq⟩ := forall₂_of_arr_append_eq hP hitems h
  exact ⟨.arr hsame, heq⟩

theorem readsAs_obj (hP : P.NumbersReadable) {entries : List (JsString × Json)}
    (hentries : ∀ e ∈ entries, ReadsAs IsStop (stableSerialize P) Json.Same e.2) :
    ReadsAs IsStop (stableSerialize P) Json.Same (.obj entries) := by
  intro w r r' _ _ h
  have hw := w.of_kind
  rw [← kind_eq_of_append_eq hP h] at hw
  obtain ⟨entries', rfl⟩ := hw
  have hperm : ∀ l : List (JsString × Json), (sortEntries P l).Perm l :=
    fun l => List.perm_insertionSort _ l
  obtain ⟨hsorted, heq⟩ := forall₂_of_obj_append_eq hentries h
  obtain ⟨hkeys, hvalues⟩ := Json.Same.forall₂_entry_iff.mp hsorted
  exact ⟨.obj (hperm entries) (hperm entries') hkeys hvalues, heq⟩

/-- **A serialized value can be read**: the text determines the value, and where it ends. -/
theorem stableSerialize_readsAs (hP : P.NumbersReadable) (v : Json) :
    ReadsAs IsStop (stableSerialize P) Json.Same v := by
  induction v using Json.induction with
  | null => exact readsAs_of_kind_null hP rfl
  | bool b => exact readsAs_bool hP b
  | num n =>
    rcases n with q | negative | _
    · exact readsAs_finite hP q
    · exact readsAs_of_kind_null hP rfl
    · exact readsAs_of_kind_null hP rfl
  | str s => exact readsAs_str hP s
  | arr items ih => exact readsAs_arr hP ih
  | obj entries ih => exact readsAs_obj hP ih

/-- **The serialization loses only what it should.** -/
theorem same_of_stableSerialize_eq (hP : P.NumbersReadable) {v w : Json}
    (h : stableSerialize P v = stableSerialize P w) : Json.Same v w :=
  (stableSerialize_readsAs hP v w [] [] trivial trivial (by rw [h])).1

end Reads

end OrderProcessing
