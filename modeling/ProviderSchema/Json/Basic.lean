import ProviderSchema.Decimal.Layout

/-!
# JSON values

A `Json` value keeps integers and floating-point numbers apart, because they are written and judged
differently, and keeps the members of an object in the order in which they are written. Free values
that a document carries are kept with sorted members; `insertMember` is the one operation that keeps
them so.
-/

namespace ProviderSchema

open Decimal (Binary64)

/-- A JSON value. Integers read from a document lie between `-2 ^ 63` and `2 ^ 64 - 1`. -/
inductive Json where
  | null
  | bool (value : Bool)
  | integer (value : Int)
  | float (value : Binary64)
  | text (value : String)
  | array (items : List Json)
  | object (members : List (String × Json))
deriving Repr, Inhabited

namespace Json

/-- Whether a value is `null`. -/
def isNull : Json → Bool
  | .null => true
  | _ => false

/-- Whether a value is a text. -/
def isText : Json → Bool
  | .text _ => true
  | _ => false

/-- Whether a value is a number kept as an integer. -/
def isInteger : Json → Bool
  | .integer _ => true
  | _ => false

/-- Whether a value is a number of either sort. -/
def isNumber : Json → Bool
  | .integer _ | .float _ => true
  | _ => false

/-- A truth value. -/
def bool? : Json → Option Bool
  | .bool b => some b
  | _ => none

/-- A text. -/
def text? : Json → Option String
  | .text s => some s
  | _ => none

/-- A value as an integer of 64 bits with a sign. -/
def int64? : Json → Option Int
  | .integer n => if Decimal.minInt64 ≤ n ∧ n ≤ Decimal.maxInt64 then some n else none
  | _ => none

/-- A value as a floating-point number, an integer by rounding to the nearest one. -/
def float? : Json → Option Binary64
  | .integer n => some (.ofInt n)
  | .float x => some x
  | _ => none

/-- The members with one more: sorted by name, and a name that is there already takes the new
value. -/
def insertMember (name : String) (value : Json) :
    List (String × Json) → List (String × Json)
  | [] => [(name, value)]
  | (other, old) :: rest =>
    if name = other then (name, value) :: rest
    else if name < other then (name, value) :: (other, old) :: rest
    else (other, old) :: insertMember name value rest

/-- Members that are left out when there is no value for them. -/
def member? (name : String) (value : Option Json) : List (String × Json) :=
  match value with
  | some v => [(name, v)]
  | none => []

/-- A list member that is left out when the list is empty. -/
def listMember? (name : String) (items : List Json) : List (String × Json) :=
  if items.isEmpty then [] else [(name, .array items)]

/-- An object member that is left out when the object is empty. -/
def objectMember? (name : String) (members : List (String × Json)) : List (String × Json) :=
  if members.isEmpty then [] else [(name, .object members)]

end Json

end ProviderSchema
