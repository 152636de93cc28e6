import OrderProcessing.Hash

/-!
# JSON schemas

The routes declare what they accept as JSON schemas, which the framework checks before a handler
runs. `Schema` has the keywords that `src/routes/orders.ts` uses; `Schema.accepts` is what a
validator computes from them.

The value is the one that the handler gets: where the framework coerces a value before it validates,
the coerced one is meant.

## What is taken from the framework

Whether a string has the format `date-time` is a parameter. That a number is accepted only if it is
finite is what the validator's strict treatment of numbers says.

## Main results

For each kind of schema there is one lemma that says which values it accepts:
`Schema.accepts_string_iff`, `Schema.accepts_number_iff`, `Schema.accepts_integer_iff`,
`Schema.accepts_enum_iff`, `Schema.accepts_array_iff`, `Schema.accepts_object_iff`.
-/

namespace OrderProcessing

/-! ### Strings -/

/-- The number of code points: a surrogate pair counts once. -/
def ucs2length : JsString → ℕ
  | [] => 0
  | [_] => 1
  | u :: v :: rest =>
    if isLead u && isTrail v then ucs2length rest + 1 else ucs2length (v :: rest) + 1

theorem one_le_ucs2length {s : JsString} : 1 ≤ ucs2length s ↔ s ≠ [] := by
  fun_cases ucs2length s <;> simp_all

/-- A code unit that is no half of a pair; a lone surrogate is replaced. -/
def decodeUnit (u : UInt16) : Char :=
  if isLead u || isTrail u then '\uFFFD' else Char.ofNat u.toNat

/-- The characters of a string. -/
def decode : JsString → List Char
  | [] => []
  | [u] => [decodeUnit u]
  | u :: v :: rest =>
    if isLead u && isTrail v then
      Char.ofNat (0x10000 + (u.toNat - 0xD800) * 0x400 + (v.toNat - 0xDC00)) :: decode rest
    else decodeUnit u :: decode (v :: rest)

/-- A string where the model has `String`: ids, keys and timestamps. -/
def text (s : JsString) : String := String.ofList (decode s)

/-! ### Schemas -/

/-- A schema, in the keywords that the routes use. -/
inductive Schema
  /-- `type: 'string'` with `minLength`. -/
  | string (minLength : ℕ)
  /-- `type: 'string'` with `format: 'date-time'`. -/
  | dateTime
  /-- `type: 'number'` with `exclusiveMinimum`. -/
  | number (exclusiveMinimum : ℚ)
  /-- `type: 'integer'` with `minimum`. -/
  | integer (minimum : ℤ)
  /-- `enum`, of strings. -/
  | enum (values : List JsString)
  /-- `type: 'array'` with `minItems` and `items`. -/
  | array (minItems : ℕ) (items : Schema)
  /-- `type: 'object'` with `required` and `properties`. Other properties are accepted. -/
  | object (required : List JsString) (properties : List (JsString × Schema))

namespace Schema

mutual

/-- The value satisfies the schema. -/
def accepts (isDateTime : JsString → Bool) : Schema → Json → Bool
  | .string minLength, .str s => minLength ≤ ucs2length s
  | .dateTime, .str s => isDateTime s
  | .number exclusiveMinimum, .num (.finite q) => exclusiveMinimum < q
  | .integer minimum, .num (.finite q) => q.den = 1 && minimum ≤ q.num
  | .enum values, .str s => values.contains s
  | .array minItems items, .arr vs => minItems ≤ vs.length && vs.all (items.accepts isDateTime)
  | .object required properties, .obj entries =>
    required.all (fun key => ((Json.obj entries).get? key).isSome) &&
      acceptsProperties isDateTime properties (.obj entries)
  | _, _ => false

/-- Each of the properties that the value has satisfies its schema. -/
def acceptsProperties (isDateTime : JsString → Bool) : List (JsString × Schema) → Json → Bool
  | [], _ => true
  | (key, schema) :: properties, v =>
    ((v.get? key).all fun w => schema.accepts isDateTime w) &&
      acceptsProperties isDateTime properties v

end

attribute [local simp] accepts

variable {isDateTime : JsString → Bool} {v : Json}

theorem accepts_string_iff {minLength : ℕ} :
    (string minLength).accepts isDateTime v = true ↔
      ∃ s, v = .str s ∧ minLength ≤ ucs2length s := by
  cases v <;> simp

theorem accepts_dateTime_iff :
    dateTime.accepts isDateTime v = true ↔ ∃ s, v = .str s ∧ isDateTime s = true := by
  cases v <;> simp

theorem accepts_number_iff {exclusiveMinimum : ℚ} :
    (number exclusiveMinimum).accepts isDateTime v = true ↔
      ∃ q, v = .num (.finite q) ∧ exclusiveMinimum < q := by
  rcases v with _ | _ | (_ | _ | _) | _ | _ | _ <;> simp

theorem accepts_integer_iff {minimum : ℤ} :
    (integer minimum).accepts isDateTime v = true ↔
      ∃ n : ℤ, v = .num (.finite n) ∧ minimum ≤ n := by
  rcases v with _ | _ | (q | _ | _) | _ | _ | _ <;> simp
  constructor
  · rintro ⟨hden, hmin⟩
    exact ⟨q.num, ((Rat.den_eq_one_iff q).mp hden).symm, hmin⟩
  · rintro ⟨n, rfl, hmin⟩
    exact ⟨Rat.den_intCast n, hmin⟩

theorem accepts_enum_iff {values : List JsString} :
    (enum values).accepts isDateTime v = true ↔ ∃ s ∈ values, v = .str s := by
  cases v <;> simp

theorem accepts_array_iff {minItems : ℕ} {items : Schema} :
    (array minItems items).accepts isDateTime v = true ↔
      ∃ vs, v = .arr vs ∧ minItems ≤ vs.length ∧ ∀ w ∈ vs, items.accepts isDateTime w = true := by
  cases v <;> simp

theorem acceptsProperties_iff {properties : List (JsString × Schema)} :
    acceptsProperties isDateTime properties v = true ↔
      ∀ e ∈ properties, ∀ w, v.get? e.1 = some w → e.2.accepts isDateTime w = true := by
  induction properties with
  | nil => simp [acceptsProperties]
  | cons e properties ih =>
    obtain ⟨key, schema⟩ := e
    rw [acceptsProperties, Bool.and_eq_true, ih, List.forall_mem_cons, Option.all_eq_true]

theorem accepts_object_iff {required : List JsString} {properties : List (JsString × Schema)} :
    (object required properties).accepts isDateTime v = true ↔
      (∃ entries, v = .obj entries) ∧ (∀ key ∈ required, ∃ w, v.get? key = some w) ∧
        ∀ e ∈ properties, ∀ w, v.get? e.1 = some w → e.2.accepts isDateTime w = true := by
  cases v with
  | obj entries =>
    rw [accepts, Bool.and_eq_true, List.all_eq_true, acceptsProperties_iff]
    simp only [Option.isSome_iff_exists, Json.obj.injEq, exists_eq', true_and]
  | _ => simp

/-- A required property is there, and satisfies its schema. -/
theorem exists_property {required : List JsString} {properties : List (JsString × Schema)}
    {key : JsString} {schema : Schema}
    (h : (object required properties).accepts isDateTime v = true) (hkey : key ∈ required)
    (hschema : (key, schema) ∈ properties) :
    ∃ w, v.get? key = some w ∧ schema.accepts isDateTime w = true := by
  obtain ⟨-, hrequired, hproperties⟩ := accepts_object_iff.mp h
  obtain ⟨w, hw⟩ := hrequired key hkey
  exact ⟨w, hw, hproperties _ hschema w hw⟩

end Schema

end OrderProcessing
