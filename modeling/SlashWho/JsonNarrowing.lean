import SlashWho.OrderedMap
import Mathlib.Data.Rat.Floor

/-!
Parsed upstream JSON and the narrowing every decoder reads it through. A value
that was never sent is `none`, which no narrowing accepts; `null` is a value.
An object's fields keep their order, and the first entry of a key is its own.
-/

namespace SlashWho.JsonNarrowing

inductive Json
  | null
  | bool (value : Bool)
  | number (value : ℚ)
  | string (value : String)
  | array (items : List Json)
  | object (fields : List (String × Json))

abbrev Fields := List (String × Json)

def record : Option Json → Option Fields
  | some (.object fields) => some fields
  | _ => none

def array : Option Json → Option (List Json)
  | some (.array items) => some items
  | _ => none

def boolean : Option Json → Option Bool
  | some (.bool value) => some value
  | _ => none

def nonEmptyString : Option Json → Option String
  | some (.string value) => if value.isEmpty then none else some value
  | _ => none

def maxSafeInteger : ℕ := 9007199254740991

def safeInteger : Option Json → Option ℤ
  | some (.number value) =>
    if value.den = 1 ∧ value.num.natAbs ≤ maxSafeInteger then some value.num else none
  | _ => none

def nonNegativeInteger (value : Option Json) : Option ℕ :=
  (safeInteger value).bind fun n => if 0 ≤ n then some n.toNat else none

def positiveInteger (value : Option Json) : Option ℕ :=
  (safeInteger value).bind fun n => if 0 < n then some n.toNat else none

def maxDateMilliseconds : ℕ := 8640000000000000

def validTimestampMilliseconds (value : Option Json) : Option ℕ :=
  (nonNegativeInteger value).bind fun n => if n ≤ maxDateMilliseconds then some n else none

/-- `parent && parent[key]`: what is read below a value that is no record is `null`. -/
def andField (parent : Option Fields) (key : String) : Option Json :=
  match parent with
  | none => some .null
  | some fields => fields.lookup key

@[simp] theorem record_object (fields : Fields) : record (some (.object fields)) = some fields :=
  rfl

@[simp] theorem record_null : record (some .null) = none := rfl

@[simp] theorem array_array (items : List Json) : array (some (.array items)) = some items := rfl

@[simp] theorem andField_some (fields : Fields) (key : String) :
    andField (some fields) key = fields.lookup key := rfl

theorem record_eq_some_iff {value : Option Json} {fields : Fields} :
    record value = some fields ↔ value = some (.object fields) := by
  constructor
  · intro h
    rcases value with _ | ⟨_ | _ | _ | _ | _ | own⟩ <;> cases h
    rfl
  · intro h
    rw [h, record_object]

theorem positiveInteger_of_nonNegativeInteger {value : Option Json} {n : ℕ}
    (h : nonNegativeInteger value = some n) (hn : n ≠ 0) : positiveInteger value = some n := by
  simp only [nonNegativeInteger, positiveInteger, Option.bind_eq_some_iff] at h ⊢
  obtain ⟨i, hi, hsome⟩ := h
  refine ⟨i, hi, ?_⟩
  split at hsome
  · simp only [Option.some.injEq] at hsome
    have hpos : 0 < i := by omega
    rw [if_pos hpos, hsome]
  · cases hsome

/-- The fields without one key, as an answer is when its query does not ask for it. -/
def omitField (key : String) (fields : Fields) : Fields :=
  fields.filter fun field => field.1 ≠ key

theorem lookup_omitField (key k : String) (fields : Fields) :
    (omitField key fields).lookup k = if k = key then none else fields.lookup k :=
  lookup_filter_ne key k fields

end SlashWho.JsonNarrowing
