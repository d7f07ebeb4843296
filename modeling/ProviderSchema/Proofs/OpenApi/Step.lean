import ProviderSchema.OpenApi.Inlining
import ProviderSchema.Proofs.Document.Table
import ProviderSchema.Proofs.OpenApi.Children

/-!
# Steps from a schema to a child

A schema has seven kinds of child.  `Children.child?` takes one step to a
child, and `Children.shape` is what can be seen of the children without
taking a step: the names of the properties in their order, and how many
members there are.

`Schema.inductionOnSteps` is the induction that goes with it: what holds of
a schema whenever it holds of the children that a step leads to, holds of
all schemas.
-/

namespace ProviderSchema.OpenApi

/-- A step from a schema to a child. -/
inductive Step where
  | property (name : String)
  | items
  | additional
  | allOf (i : Nat)
  | oneOf (i : Nat)
  | anyOf (i : Nat)
  | tuple (i : Nat)
deriving DecidableEq, Repr

/-- Whether a step leads to a member of a tuple. -/
def Step.isIntoTuple : Step → Bool
  | .tuple _ => true
  | _ => false

namespace Children

variable {α : Type}

/-- The child that a step leads to, if there is one. -/
def child? (c : Children α) : Step → Option α
  | .property name => Table.get? c.properties name
  | .items =>
    match c.items with
    | some (.schema s) => some s
    | _ => none
  | .additional =>
    match c.additional with
    | some (.schema s) => some s
    | _ => none
  | .allOf i => c.allOf[i]?
  | .oneOf i => c.oneOf[i]?
  | .anyOf i => c.anyOf[i]?
  | .tuple i =>
    match c.items with
    | some (.tuple members) => members[i]?
    | _ => none

/-- Children with nothing in their places. -/
def shape (c : Children α) : Children Unit where
  properties := c.properties.map fun (name, _) => (name, ())
  additional := c.additional.map fun
    | .allowed value => .allowed value
    | .schema _ => .schema ()
  items := c.items.map fun
    | .allowed value => .allowed value
    | .tuple members => .tuple (members.map fun _ => ())
    | .schema _ => .schema ()
  allOf := c.allOf.map fun _ => ()
  oneOf := c.oneOf.map fun _ => ()
  anyOf := c.anyOf.map fun _ => ()

end Children

/-- A step leads to one of the children. -/
theorem Children.holds_of_child?_eq_some {c : Children Schema} {step : Step} {s : Schema}
    (h : c.child? step = some s) : c.Holds s := by
  cases step with
  | property name => exact .property name (Table.mem_of_get?_eq_some h)
  | items =>
    simp only [child?] at h
    split at h
    · cases h
      exact .items ‹_›
    · cases h
  | additional =>
    simp only [child?] at h
    split at h
    · cases h
      exact .additional ‹_›
    · cases h
  | allOf i => exact .composed (by simp [List.mem_of_getElem? h])
  | oneOf i => exact .composed (by simp [List.mem_of_getElem? h])
  | anyOf i => exact .composed (by simp [List.mem_of_getElem? h])
  | tuple i =>
    simp only [child?] at h
    split at h
    · rename_i members hitems
      exact .tuple members hitems (List.mem_of_getElem? h)
    · cases h

/-- What passes from the children that a step leads to on to the schema
holds of all schemas. -/
theorem Schema.inductionOnSteps {motive : Schema → Prop}
    (reference : ∀ target, motive (.reference target))
    (inline : ∀ (keywords : Keywords) (c : Children Schema),
      (∀ step s, c.child? step = some s → motive s) → motive (.inline keywords c))
    (s : Schema) : motive s :=
  inductionOnHeld reference
    (fun keywords c ih => inline keywords c fun _ s h => ih s (c.holds_of_child?_eq_some h)) s

/-! ## References replaced below a schema -/

namespace Schema

/-- The children with `f` in the place of the references in them; the
members of a tuple stay as they are. -/
def substituteChildren (f : String → Schema) (c : Children Schema) : Children Schema where
  properties := c.properties.map fun (name, s) => (name, s.substitute f)
  additional := c.additional.map fun
    | .allowed value => .allowed value
    | .schema s => .schema (s.substitute f)
  items := c.items.map fun
    | .allowed value => .allowed value
    | .tuple members => .tuple members
    | .schema s => .schema (s.substitute f)
  allOf := c.allOf.map (substitute f)
  oneOf := c.oneOf.map (substitute f)
  anyOf := c.anyOf.map (substitute f)

theorem substituteList_eq_map (f : String → Schema) (schemas : List Schema) :
    substituteList f schemas = schemas.map (substitute f) := by
  induction schemas with
  | nil => rfl
  | cons s rest ih => rw [substituteList, ih, List.map_cons]

theorem substituteTable_eq_map (f : String → Schema) (table : List (String × Schema)) :
    substituteTable f table = table.map fun (name, s) => (name, s.substitute f) := by
  induction table with
  | nil => rfl
  | cons entry rest ih => rw [substituteTable, ih, List.map_cons]

@[simp] theorem substitute_reference (f : String → Schema) (target : String) :
    substitute f (.reference target) = f target := by
  rw [substitute]

@[simp] theorem substitute_inline (f : String → Schema) (keywords : Keywords)
    (c : Children Schema) :
    substitute f (.inline keywords c) = .inline keywords (substituteChildren f c) := by
  obtain ⟨properties, additional, items, allOf, oneOf, anyOf⟩ := c
  rcases additional with _ | ⟨_ | _⟩ <;> rcases items with _ | ⟨_ | _ | _⟩ <;>
    simp [substitute, substituteChildren, substituteList_eq_map, substituteTable_eq_map]

/-- Nothing of the shape depends on what is put in the place of references. -/
@[simp] theorem shape_substituteChildren (f : String → Schema) (c : Children Schema) :
    (substituteChildren f c).shape = c.shape := by
  obtain ⟨properties, additional, items, allOf, oneOf, anyOf⟩ := c
  rcases additional with _ | ⟨_ | _⟩ <;> rcases items with _ | ⟨_ | _ | _⟩ <;>
    simp [substituteChildren, Children.shape, Function.comp_def]

/-- The children of a schema before and after references below it are
replaced. -/
theorem child?_substituteChildren (f : String → Schema) (c : Children Schema)
    (step : Step) :
    (substituteChildren f c).child? step =
      if step.isIntoTuple then c.child? step else (c.child? step).map (substitute f) := by
  obtain ⟨properties, additional, items, allOf, oneOf, anyOf⟩ := c
  cases step with
  | property name => exact Table.get?_map (substitute f) properties name
  | items => rcases items with _ | ⟨_ | _ | _⟩ <;> rfl
  | additional => rcases additional with _ | ⟨_ | _⟩ <;> rfl
  | allOf i => exact List.getElem?_map
  | oneOf i => exact List.getElem?_map
  | anyOf i => exact List.getElem?_map
  | tuple i => rcases items with _ | ⟨_ | _ | _⟩ <;> rfl

end Schema

end ProviderSchema.OpenApi
