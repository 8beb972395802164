/-
Reading typed values back out of the JSON they were written as.

A `JsonCodec` writes every value of a type and reads its own writing
back; the law travels with the instance, so a store that round trips its
records proves nothing about JSON again. Objects are written by `fields`,
where a member without a value is left out, which is how a runtime
writes an `undefined` property, and read member by member with
`required`, `omittable` and `nullable`.
-/
import OneHarness.Lib.Json.Numeral

namespace OneHarness.Lib

universe u

/-- A type with a JSON form and a reader of it. -/
class JsonCodec (α : Type u) where
  toJson : α → Json
  ofJson : Json → Option α
  ofJson_toJson : ∀ a, ofJson (toJson a) = some a

export JsonCodec (toJson ofJson)

attribute [simp] JsonCodec.ofJson_toJson

namespace Json

variable {α : Type u}

-- ======== the objects

/-- An object; a member without a value is left out. -/
def fields (fs : List (String × Option Json)) : Json :=
  .obj (fs.filterMap fun p => p.2.map fun v => (p.1, v))

@[simp] theorem get_fields_nil (k : String) : (fields []).get k = none := rfl

@[simp] theorem get_fields_cons (k k' : String) (v : Option Json)
    (fs : List (String × Option Json)) :
    (fields ((k, v) :: fs)).get k'
      = ((fields fs).get k').or (if k = k' then v else none) := by
  cases v with
  | none =>
    have h : fields ((k, none) :: fs) = fields fs := rfl
    rw [h, ite_self, Option.or_none]
  | some v =>
    simp only [fields, get, List.filterMap_cons, Option.map_some, getLast?]
    cases getLast? k' (fs.filterMap _) <;> rfl

-- ======== the readers

/-- The value of a member that must be there. -/
def required [JsonCodec α] (member : Option Json) : Option α :=
  member.bind ofJson

/-- The value of a member that may be left out. -/
def omittable [JsonCodec α] : Option Json → Option (Option α)
  | none => some none
  | some v => (ofJson v).map some

/-- The value of a member that may be `null`. -/
def nullable [JsonCodec α] : Option Json → Option (Option α)
  | some .null => some none
  | some v => (ofJson v).map some
  | none => none

/-- What `nullable` reads. -/
def orNull [JsonCodec α] : Option α → Json
  | none => .null
  | some a => toJson a

@[simp] theorem required_some [JsonCodec α] (a : α) :
    required (some (toJson a)) = some a := JsonCodec.ofJson_toJson a

@[simp] theorem omittable_map [JsonCodec α] (o : Option α) :
    omittable (o.map toJson) = some o := by
  cases o with
  | none => rfl
  | some a => simp only [Option.map_some, omittable, JsonCodec.ofJson_toJson]

theorem nullable_orNull [JsonCodec α] (h : ∀ a : α, toJson a ≠ .null)
    (o : Option α) : nullable (some (orNull o)) = some o := by
  cases o with
  | none => rfl
  | some a =>
    unfold orNull nullable
    split
    case h_1 heq => exact absurd (Option.some.inj heq) (h a)
    case h_2 v hv heq =>
      rw [← Option.some.inj heq, JsonCodec.ofJson_toJson]
      rfl
    case h_3 heq => cases heq

end Json

-- ======== the instances

instance : JsonCodec Json where
  toJson j := j
  ofJson j := some j
  ofJson_toJson _ := rfl

instance : JsonCodec String where
  toJson s := .str s
  ofJson
    | .str s => some s
    | _ => none
  ofJson_toJson _ := rfl

instance : JsonCodec Bool where
  toJson b := .bool b
  ofJson
    | .bool b => some b
    | _ => none
  ofJson_toJson _ := rfl

instance : JsonCodec Numeral where
  toJson n := .num n
  ofJson
    | .num n => some n
    | _ => none
  ofJson_toJson _ := rfl

/-- An object as its members. -/
instance : JsonCodec (List (String × Json)) where
  toJson ms := .obj ms
  ofJson
    | .obj ms => some ms
    | _ => none
  ofJson_toJson _ := rfl

/-- The elements of an array, read one by one. -/
theorem mapM_ofJson_map_toJson {α : Type u} [JsonCodec α] (l : List α) :
    (l.map toJson).mapM ofJson = some l := by
  induction l with
  | nil => rfl
  | cons a l ih =>
    rw [List.map_cons, List.mapM_cons, JsonCodec.ofJson_toJson, ih]
    rfl

instance {α : Type u} [JsonCodec α] : JsonCodec (List α) where
  toJson l := .arr (l.map toJson)
  ofJson
    | .arr js => js.mapM ofJson
    | _ => none
  ofJson_toJson l := mapM_ofJson_map_toJson l

end OneHarness.Lib
