import ProviderSchema.Proofs.Attribute.Covers
import ProviderSchema.Proofs.Document.Rearranged
import ProviderSchema.Proofs.Node.BuiltNames
import ProviderSchema.Proofs.Node.Location

/-!
# What is built of one node for different uses

The flavor of a builder and the computability that it forces decide who
supplies the values of what it builds and which values are taken if nobody
does, and nothing else.  Two builders that differ in these settings only are
compared step by step (`Builder.buildsAlike`): they fail at the same property
with the same error, or build attributes that are equal once it is left out who
supplies them.

Merges do not look at that either, so what the two build can be merged in
either order without a disagreement, and the first stays as it is
(`agreeUpTo_attributes_supplying`): the one schema of what is created, read and
updated never contradicts itself.
-/

namespace ProviderSchema

open OpenApi
open Attribute (unsupplied unsupplied_collection unsupplied_nested unsupplied_single)

namespace Builder

/-- The builder, for another use. -/
def supplying (b : Builder) (flavor : Flavor) (forced : Option Computability) : Builder :=
  { b with flavor, forced }

variable {b : Builder} {flavor : Flavor} {forced : Option Computability}

/-- A builder and one for another use build the same of a node, but for who
supplies it. -/
structure BuildsAlike (b : Builder) (flavor : Flavor) (forced : Option Computability)
    (n : Node) : Prop where
  named (name : String) (c c' : Computability) (path : String) :
    ((b.supplying flavor forced).named name c' path n).map unsupplied =
      (b.named name c path n).map unsupplied
  properties (owner : Facts) (path : String) :
    ((b.supplying flavor forced).propertyAttributes owner path n.properties).map
        (List.map unsupplied) =
      (b.propertyAttributes owner path n.properties).map (List.map unsupplied)

/-- The use decides about the default of a scalar and about who supplies it. -/
theorem unsupplied_scalar (name : String) (facts : Facts) (c c' : Computability)
    (kind : ScalarKind) :
    ((b.supplying flavor forced).scalar name facts c' kind).unsupplied =
      (b.scalar name facts c kind).unsupplied := by
  cases kind <;> rfl

theorem unsupplied_propertyAttributes {properties : List (Property × Except SchemaError Node)}
    (h : ∀ p child, (p, .ok child) ∈ properties → b.BuildsAlike flavor forced child)
    (owner : Facts) (path : String) :
    ((b.supplying flavor forced).propertyAttributes owner path properties).map
        (List.map unsupplied) =
      (b.propertyAttributes owner path properties).map (List.map unsupplied) := by
  induction properties with
  | nil =>
    rw [propertyAttributes, propertyAttributes]
  | cons entry rest ih =>
    obtain ⟨p, child⟩ := entry
    have hrest := ih fun q m hmem => h q m (List.mem_cons_of_mem _ hmem)
    by_cases hignored : below path p.name ∈ b.ignores
    · have hignored' : below path p.name ∈ (b.supplying flavor forced).ignores := hignored
      rw [propertyAttributes_cons_of_mem hignored, propertyAttributes_cons_of_mem hignored', hrest]
    · have hkept : b.ignores.contains (below path p.name) = false := by simpa using hignored
      have hkept' : (b.supplying flavor forced).ignores.contains (below path p.name) = false :=
        hkept
      rw [propertyAttributes.eq_def, propertyAttributes.eq_def b]
      cases child with
      | error e =>
        simp only [hkept, hkept', Bool.false_eq_true, if_false]
        rfl
      | ok n =>
        simp only [hkept, hkept', Bool.false_eq_true, if_false]
        rcases eq_error_or_eq_ok_of_map_eq ((h p n List.mem_cons_self).named p.name
            (b.computabilityOf owner p) ((b.supplying flavor forced).computabilityOf owner p)
            (below path p.name)) with ⟨e, he', he⟩ | ⟨a', a, ha', ha, heq⟩
        · rw [he, he']
          rfl
        · rcases eq_error_or_eq_ok_of_map_eq hrest with ⟨e, he', he⟩ | ⟨l', l, hl', hl, hlist⟩
          · rw [ha, ha', he, he']
            rfl
          · rw [ha, ha', hl, hl']
            exact congrArg Except.ok (List.cons_eq_cons.mpr ⟨heq, hlist⟩)

/-- Collections are built alike if their members are. -/
theorem unsupplied_collected {member : Except SchemaError Node}
    (h : ∀ m, member = .ok m → b.BuildsAlike flavor forced m) (name : String)
    {traits traits' : Traits} (kind : CollectionKind) (path : String)
    (htraits : traits'.unsupplied = traits.unsupplied) :
    ((b.supplying flavor forced).collected name traits' kind path member).map unsupplied =
      (b.collected name traits kind path member).map unsupplied := by
  cases member with
  | error e => rfl
  | ok m =>
    rw [collected, collected]
    split
    · rcases eq_error_or_eq_ok_of_map_eq ((h m rfl).properties m.facts path) with
        ⟨e, he', he⟩ | ⟨l', l, hl', hl, hlist⟩
      · rw [he, he']
        rfl
      · rw [hl, hl']
        simp only [Except.map, unsupplied_nested, htraits, hlist]
    · cases m.elementType with
      | error e => rfl
      | ok element => simp only [Except.map, unsupplied_collection, htraits]

/-- Whatever the use, the same is built of a node, but for who supplies it. -/
theorem buildsAlike (b : Builder) (flavor : Flavor) (forced : Option Computability) (n : Node) :
    b.BuildsAlike flavor forced n := by
  induction n using Node.inductionOnChildren with
  | mk n ihproperties ihitems ihvalue =>
    have hproperties := unsupplied_propertyAttributes ihproperties
    refine ⟨?_, hproperties⟩
    intro name c c' path
    rw [named_eq, named_eq]
    split
    · exact congrArg Except.ok (unsupplied_scalar name n.facts c c' _)
    · exact unsupplied_collected ihitems name _ path rfl
    · exact unsupplied_collected ihvalue name _ path rfl
    · rcases eq_error_or_eq_ok_of_map_eq (hproperties n.facts path) with
        ⟨e, he', he⟩ | ⟨l', l, hl', hl, hlist⟩
      · rw [he, he']
        rfl
      · rw [hl, hl']
        simp only [Except.map, unsupplied_single, hlist]
        rfl

end Builder

/-- Nodes below an arranged one are arranged. -/
theorem Node.Arranged.of_reaches {n m : Node} {path : List Step} (h : n.Arranged)
    (hreach : n.Reaches path m) : m.Arranged := by
  refine hreach.forall (fun n m step hn hchild => ?_) h
  obtain ⟨-, each, items, mapValue⟩ := hn
  cases hchild with
  | property hmem => exact each _ _ hmem
  | items hitems => exact items _ hitems
  | mapValue hvalue => exact mapValue _ hvalue

/-- What is built for one use and what is built for another one differ in
nothing but who supplies the values: so merging the second into the first meets
no disagreement and changes nothing. -/
structure BuiltAlike (target source : List Attribute) : Prop where
  same : target.map unsupplied = source.map unsupplied
  mismatches : attributeMismatches target [source] = []
  merged : mergeAttributes target [source] = target

theorem builtAlike_of_map_unsupplied_eq {target source : List Attribute}
    (hnames : UniqueNames target) (h : target.map unsupplied = source.map unsupplied) :
    BuiltAlike target source := by
  have hcovers := Attribute.coversAll_of_unsupplied_eq hnames h
  have hmismatches : attributeMismatches target [source] = [] := by
    rw [attributeMismatches, hcovers.mismatches "", attributeMismatches]
    rfl
  exact ⟨h, hmismatches, hcovers.merge⟩

/-- For every use of a node of a schema the same is built, or building fails
with the same error. -/
theorem agreeUpTo_attributes_supplying {schema : Schema} {root n : Node} {path : List Step}
    (hroot : schema.node = .ok root) (hreach : root.Reaches path n) (description : Option String)
    (b : Builder) (flavor : Flavor) (forced : Option Computability) :
    AgreeUpTo BuiltAlike (b.attributes (n.describedBy description))
      ((b.supplying flavor forced).attributes (n.describedBy description)) := by
  have harranged : (n.describedBy description).Arranged :=
    ((Schema.arranged_of_node_eq_ok hroot).of_reaches hreach).describedBy description
  generalize n.describedBy description = m at harranged ⊢
  have halike := (b.buildsAlike flavor forced m).properties m.facts ""
  unfold Builder.attributes
  split
  · rcases eq_error_or_eq_ok_of_map_eq halike with ⟨e, he', he⟩ | ⟨l', l, hl', hl, hlist⟩
    · rw [he, he']
      exact .error e
    · have hunique : UniqueNames l :=
        (buildsNames_of_arranged holdsOfArranged_nodup b harranged).properties _ _ _ hl
      rw [hl, hl']
      exact .ok (builtAlike_of_map_unsupplied_eq hunique hlist.symm)
  · exact .error _

/-- A profile with a name, which has a default, an owner and keys. -/
def profileSchema : Schema :=
  .inline { type := some (.single .object), required := ["owner"] }
    { properties := [
        ("name", .inline { type := some (.single .string), default := some (.text "me") } {}),
        ("owner", .inline { type := some (.single .object) }
          { properties := [("email", .inline { type := some (.single .string) } {})] }),
        ("keys", .inline { type := some (.single .array) }
          { items := some (.schema (.inline { type := some (.single .string) } {})) })] }

/-- Names, with those who supply the values and the defaults. -/
def supplies (attributes : List Attribute) : List (String × Computability × Option ScalarShape) :=
  attributes.map fun a => (a.name, a.traits.computability, a.scalar?)

/-- A profile is read as it is created, but its values are all computed and
its name has no default. -/
theorem builtAlike_profile :
    ∃ root created read, profileSchema.node = .ok root ∧ root.Reaches [] root ∧
      Builder.attributes { flavor := .resource } root = .ok created ∧
      Builder.attributes { flavor := .dataSource, forced := some .computed } root = .ok read ∧
      supplies created = [("keys", .computedOptional, none),
        ("name", .computedOptional, some (.string (some "me"))), ("owner", .required, none)] ∧
      supplies read = [("keys", .computed, none), ("name", .computed, some (.string none)),
        ("owner", .computed, none)] ∧
      BuiltAlike created read := by
  obtain ⟨root, hroot, hcreated⟩ := exists_ok_of_toOption_map_eq_some
    (show profileSchema.node.toOption.map (fun root =>
      (Builder.attributes { flavor := .resource } root).toOption.map supplies) =
        some (some [("keys", .computedOptional, none),
          ("name", .computedOptional, some (.string (some "me"))), ("owner", .required, none)])
      by decide +kernel)
  obtain ⟨root', hroot', hread⟩ := exists_ok_of_toOption_map_eq_some
    (show profileSchema.node.toOption.map (fun root =>
      (Builder.attributes { flavor := .dataSource, forced := some .computed }
        root).toOption.map supplies) =
        some (some [("keys", .computed, none), ("name", .computed, some (.string none)),
          ("owner", .computed, none)])
      by decide +kernel)
  rw [hroot] at hroot'
  cases hroot'
  obtain ⟨created, hcreated, hsupplies⟩ := exists_ok_of_toOption_map_eq_some hcreated
  obtain ⟨read, hread, hsupplies'⟩ := exists_ok_of_toOption_map_eq_some hread
  refine ⟨root, created, read, hroot, .here root, hcreated, hread, hsupplies, hsupplies', ?_⟩
  have halike := agreeUpTo_attributes_supplying hroot (.here root) none
    { flavor := .resource } .dataSource (some .computed)
  have hsame : root.describedBy none = root := by
    cases root
    rfl
  have hread' : (Builder.supplying { flavor := .resource } .dataSource
      (some .computed)).attributes root = .ok read := hread
  rw [hsame, hcreated, hread'] at halike
  cases halike with
  | ok h => exact h

end ProviderSchema
