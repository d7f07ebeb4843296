import ProviderSchema.Document.Content

/-!
# Tables

A table is a list of entries with names, in the order in which they were written. A name that is
written twice keeps its first place and takes the later value.
-/

namespace ProviderSchema

/-- A list with `f` applied to its first entry that fits, or with a new entry at the end. -/
def upsert {α : Type} (fits : α → Bool) (f : α → α) (fresh : α) : List α → List α
  | [] => [fresh]
  | a :: rest => if fits a then f a :: rest else a :: upsert fits f fresh rest

namespace Table

/-- The value of a name. -/
def get? {α : Type} (table : List (String × α)) (name : String) : Option α :=
  (table.find? fun entry => entry.1 = name).map (·.2)

/-- The table with one more entry. -/
def put {α : Type} (name : String) (value : α) (table : List (String × α)) : List (String × α) :=
  upsert (·.1 = name) (fun entry => (entry.1, value)) (name, value) table

end Table

namespace Content

/-- A table, from the content of its entries, added to the entries read before. -/
def tableEntries? {α : Type} (read : Content → Option α) (done : List (String × α)) :
    List (Key × Content) → Option (List (String × α))
  | [] => some done
  | (.name name, value) :: rest =>
    match read value with
    | some a => tableEntries? read (Table.put name a done) rest
    | none => none
  | (_, _) :: _ => none

/-- A table of things that `read` decodes. -/
def table? {α : Type} (read : Content → Option α) : Content → Option (List (String × α))
  | .object entries => tableEntries? read [] entries
  | _ => none

/-- A list of things that `read` decodes. -/
def list? {α : Type} (read : Content → Option α) : Content → Option (List α)
  | .array items => items.mapM read
  | _ => none

end Content

end ProviderSchema
