import SlashWho.JsonNarrowing

/-!
Typed values that cross a JSON boundary. A codec carries the law that what it
writes it reads back. An entry of an object without a value is not written, and
reads back as absent, which is not `null`.
-/

namespace SlashWho.JsonCodecs

open JsonNarrowing

structure Codec (α : Type) where
  encode : α → Json
  decode : Json → Option α
  decode_encode : ∀ a, decode (encode a) = some a

attribute [simp] Codec.decode_encode

def decodeText : Json → Option String
  | .string value => some value
  | _ => none

def text : Codec String := ⟨.string, decodeText, fun _ => rfl⟩

def decodeFlag : Json → Option Bool
  | .bool value => some value
  | _ => none

def flag : Codec Bool := ⟨.bool, decodeFlag, fun _ => rfl⟩

def decodeRational : Json → Option ℚ
  | .number value => some value
  | _ => none

def rational : Codec ℚ := ⟨.number, decodeRational, fun _ => rfl⟩

def decodeInteger : Json → Option ℤ
  | .number value => if value.den = 1 then some value.num else none
  | _ => none

def integer : Codec ℤ := ⟨fun n => .number n, decodeInteger, fun _ => rfl⟩

variable {α : Type}

def encodeNullable (codec : Codec α) : Option α → Json
  | none => .null
  | some a => codec.encode a

/-- A value that may be `null`. What is written of a present one is not `null`. -/
def nullable (codec : Codec α) (hnull : ∀ a, codec.encode a ≠ .null) : Codec (Option α) where
  encode := encodeNullable codec
  decode
    | .null => some none
    | value => (codec.decode value).map some
  decode_encode := by
    intro value
    cases value with
    | none => rfl
    | some a =>
      unfold encodeNullable
      simp only
      split
      · next heq => exact absurd heq (hnull a)
      · rw [codec.decode_encode, Option.map_some]

def decodeItems (codec : Codec α) : Json → Option (List α)
  | .array items => items.mapM codec.decode
  | _ => none

theorem mapM_decode_encode (codec : Codec α) (items : List α) :
    (items.map codec.encode).mapM codec.decode = some items := by
  induction items with
  | nil => rfl
  | cons item rest ih => simp [ih]

def list (codec : Codec α) : Codec (List α) :=
  ⟨fun items => .array (items.map codec.encode), decodeItems codec, mapM_decode_encode codec⟩

/-- The values of a finite set of names. -/
def oneOf (all : List α) (name : α → String)
    (hname : ∀ a, all.find? (fun b => name b = name a) = some a) : Codec α where
  encode a := .string (name a)
  decode
    | .string value => all.find? (fun b => name b = value)
    | _ => none
  decode_encode := hname

/-! Objects. -/

def objectOf (entries : List (String × Option Json)) : Json :=
  .object (entries.filterMap fun entry => entry.2.map fun value => (entry.1, value))

theorem objectOf_ne_null (entries : List (String × Option Json)) : objectOf entries ≠ .null :=
  nofun

def property (value : Json) (key : String) : Option Json :=
  match value with
  | .object fields => fields.lookup key
  | _ => none

@[simp] theorem property_objectOf_nil (key : String) : property (objectOf []) key = none := rfl

@[simp] theorem property_objectOf_cons (entry : String × Option Json)
    (rest : List (String × Option Json)) (key : String) :
    property (objectOf (entry :: rest)) key =
      if key = entry.1 then entry.2.or (property (objectOf rest) key)
      else property (objectOf rest) key := by
  obtain ⟨name, value⟩ := entry
  cases value with
  | none => simp [property, objectOf]
  | some value =>
    unfold property objectOf
    simp only [List.filterMap_cons, Option.map_some, lookup_cons_eq_ite, Option.some_or]

variable (codec : Codec α)

/-- A field every object of the kind has. -/
def requiredField (value : Json) (key : String) : Option α :=
  (property value key).bind codec.decode

/-- A value that may be absent. -/
def decodeOptional : Option Json → Option (Option α)
  | none => some none
  | some found => (codec.decode found).map some

/-- A field an object of the kind may lack. -/
def optionalField (value : Json) (key : String) : Option (Option α) :=
  decodeOptional codec (property value key)

@[simp] theorem decodeOptional_map_encode (a : Option α) :
    decodeOptional codec (a.map codec.encode) = some a := by
  cases a with
  | none => rfl
  | some a => exact congrArg (Option.map some) (codec.decode_encode a)

end SlashWho.JsonCodecs
