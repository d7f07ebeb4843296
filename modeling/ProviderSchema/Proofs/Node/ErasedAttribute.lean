import ProviderSchema.Proofs.Attribute.Erasure
import ProviderSchema.Proofs.Node.Form

/-!
# The attribute of a node and its element type

A node is compiled in two ways.  `Builder.named` makes an attribute of it,
which says what there is to say about the value, and `Node.elementType` only
gives the shape of the value.  The two are written separately and part ways
at every collection, where an attribute keeps a member that is a record apart
from one that is not.

They agree (`attributeNamed_erased`): one fails where the other does, for the
same reason, and where they succeed the attribute has that shape.  The
induction carries two facts about a node, because the attribute of a
collection is made of the properties of its member and never of the
attribute of the member itself.
-/

namespace ProviderSchema.Builder

open Attribute (erased erasedFields)

/-- The two compilers agree about a node, as an attribute of its own and as
the properties of an attribute. -/
structure Agrees (b : Builder) (n : Node) : Prop where
  named (name : String) (c : Computability) (path : String) :
    (b.named name c path n).map erased = n.elementType
  properties (owner : Facts) (path : String) :
    (b.propertyAttributes owner path n.properties).map erasedFields =
      Node.elementFields n.properties

variable {b : Builder}

/-- Without lines an error is only told by its property. -/
theorem errorAt_of_lines_eq_none (hlines : b.lines = none) (owner : Facts) (p : Property)
    (e : SchemaError) : b.errorAt owner p e = e.inProperty p.name := by
  unfold errorAt SchemaError.withLine
  rw [hlines]
  cases h : (e.inProperty p.name).line <;> simp [← h]

/-- Properties are compiled alike if the nodes they have are. -/
theorem propertyAttributes_erased (hignores : b.ignores = []) (hlines : b.lines = none)
    (owner : Facts) (path : String) (fields : List (Property × Except SchemaError Node))
    (h : ∀ p child, (p, .ok child) ∈ fields → b.Agrees child) :
    (b.propertyAttributes owner path fields).map erasedFields =
      Node.elementFields fields := by
  induction fields with
  | nil =>
    rw [propertyAttributes, Node.elementFields]
    rfl
  | cons field rest ih =>
    obtain ⟨p, _ | child⟩ := field
    · simp [propertyAttributes, Node.elementFields, hignores, Except.map,
        errorAt_of_lines_eq_none hlines]
    · have hrest := ih fun q other hmem => h q other (List.mem_cons_of_mem _ hmem)
      have hchild := (h p child List.mem_cons_self).named p.name (b.computabilityOf owner p)
        (below path p.name)
      rw [propertyAttributes, Node.elementFields, ← hchild, ← hrest]
      simp only [hignores, List.contains_nil, Bool.false_eq_true, if_false]
      cases hnamed : b.named p.name (b.computabilityOf owner p) (below path p.name) child with
      | error e => simp [Except.map, errorAt_of_lines_eq_none hlines]
      | ok built =>
        have hname : built.name = p.name := named_name hnamed
        cases b.propertyAttributes owner path rest <;>
          simp [Except.map, erasedFields, hname]

/-- Collections are compiled alike if their members are. -/
theorem collected_erased (name : String) (traits : Traits) (kind : CollectionKind)
    (path : String) (member : Except SchemaError Node)
    (h : ∀ m, member = .ok m → b.Agrees m) :
    (b.collected name traits kind path member).map erased =
      Node.collectionType kind member := by
  cases member with
  | error e => rfl
  | ok m =>
    rw [collected, Node.collectionType]
    split
    · rename_i hform
      rw [Node.elementType_eq, hform]
      dsimp only
      rw [← (h m rfl).properties m.facts path]
      cases b.propertyAttributes m.facts path m.properties <;> rfl
    · cases m.elementType <;> rfl

/-- The two compilers agree about every node, if nothing is left out and no
lines are known. -/
theorem agrees (hignores : b.ignores = []) (hlines : b.lines = none) (n : Node) :
    b.Agrees n := by
  induction n using Node.inductionOnChildren with
  | mk n hproperties hitems hvalue =>
    have hfields (owner : Facts) (path : String) :=
      propertyAttributes_erased hignores hlines owner path n.properties hproperties
    refine ⟨fun name c path => ?_, hfields⟩
    rw [named_eq, Node.elementType_eq]
    cases n.facts.form with
    | scalar kind => cases kind <;> rfl
    | array => exact collected_erased name _ _ path n.items hitems
    | map => exact collected_erased name _ .map path n.mapValue hvalue
    | record =>
      dsimp only
      rw [← hfields n.facts path]
      cases b.propertyAttributes n.facts path n.properties <;> rfl

/-- With nothing left out and without lines, the attribute of a node is built
exactly if its element type is, and then has that type as its shape.  If the
element type is not built, the attribute is not built for the same reason,
with the name of the attribute put before the path. -/
theorem attributeNamed_erased (flavor : Flavor) (forced : Option Computability)
    (name : String) (n : Node) (c : Computability) :
    (Builder.attributeNamed { flavor, forced } name n c).map erased =
      n.elementType.mapError (SchemaError.inProperty name) := by
  have hagrees : Agrees { flavor, forced } n := agrees rfl rfl n
  rw [attributeNamed, ← hagrees.named name c name]
  cases Builder.named { flavor, forced } name c name n <;> rfl

end ProviderSchema.Builder
