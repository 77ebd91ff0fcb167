/-!
What a failed evidence attempt throws. A thrown value is held by the class it was built as, its
message, and its code where that is a text.
-/

namespace SlashWho.EvidenceRetryPolicy

/-- A thrown value. -/
structure Fault where
  isError : Bool
  constructorName : String
  message : String
  code : Option String
  deriving DecidableEq

/-- `new Error(code)` -/
def authored (code : String) : Fault := ⟨true, "Error", code, none⟩

/-- `new RangeError(code)` -/
def rangeError (code : String) : Fault := ⟨true, "RangeError", code, none⟩

end SlashWho.EvidenceRetryPolicy
