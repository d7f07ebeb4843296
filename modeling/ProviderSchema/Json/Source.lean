import ProviderSchema.Document.Fault
import ProviderSchema.Decimal.Binary64

/-!
# A JSON text as far as it can be read

Whether a fault in a text matters depends on who reads it: a field nobody asks for is skipped, and
skipping is content with less than reading a value. A `Source` therefore holds the whole text as a
tree in which faults keep their places. Those who read it meet them in the order of the text, so the
first fault is the one that counts, be it one of the grammar or of the data.
-/

namespace ProviderSchema.Json

open Decimal (Binary64)

/-- A number: an integer of at most 64 bits, with or without sign, or a floating-point number. -/
inductive Number where
  | integer (value : Int)
  | float (value : Binary64)
deriving DecidableEq, Repr, Inhabited

mutual

/-- A value in a text. -/
inductive Source where
  | null
  | bool (value : Bool)
  | number (value : Number)
  | text (value : String)
  | array (items : Items)
  | object (members : Members)
  /-- The text cannot be read beyond this point, not even to skip it. -/
  | broken (fault : Fault)
  /-- The value can be skipped, as `inner` is, but not read. -/
  | unreadable (fault : Fault) (inner : Source)

/-- The items of an array. -/
inductive Items where
  | done
  /-- Neither a further item nor the end of the array follows. -/
  | stop (fault : Fault)
  /-- An item, with the line on which it starts. -/
  | item (line : Nat) (value : Source) (rest : Items)

/-- The members of an object. -/
inductive Members where
  | done
  /-- Neither a further name nor the end of the object follows. -/
  | stop (fault : Fault)
  /-- A member; its name may be one that can only be skipped. -/
  | member (name : Except Fault String) (value : Source) (rest : Members)

end

end ProviderSchema.Json
