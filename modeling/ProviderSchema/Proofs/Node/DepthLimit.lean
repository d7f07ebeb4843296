import ProviderSchema.Proofs.Node.CountedSteps
import ProviderSchema.Proofs.Node.FirstFailure

/-!
# The limit of the depth

A builder does not look at everything below a node: of a list it looks at the items, of a
map at the values, and of a record at the properties, those left out that are ignored where
an attribute is made.  `Builder.Uses` is the relation between a node and what is looked at,
be it a node or an error in the place of one.

What is made of a node is made of what stands one step below (`Builder.Outcome.member`,
`Builder.Outcome.property` and `Builder.Outcome.exists_property`).  So if it is made, then
everything that is used is a node (`Builder.Uses.exists_node`).  If not, then the error stands
in the place of a node that is used, and its path names the properties on the way
(`Builder.Outcome.passedOn`).

In both cases the steps are counted right, from the root schema on.  So no schema is too deep
that something was made of, and where one is said to be too deep, one is
(`Schema.within_depth_limit`).
-/

namespace ProviderSchema

open OpenApi

/-- What is made of a node: an attribute at a path, or the shape of its values. -/
inductive Made where
  | named (path : String)
  | shape

namespace Made

/-- What is made of a property. -/
def below (name : String) : Made → Made
  | .named path => .named (ProviderSchema.below path name)
  | .shape => .shape

/-- A property is left out where its attribute has a path that is ignored. -/
def Keeps (ignores : List String) (name : String) : Made → Prop
  | .named path => ProviderSchema.below path name ∉ ignores
  | .shape => True

/-- What is made of the members of a collection.  Only those of records have attributes. -/
def ofMember (member : Except SchemaError Node) : Made → Made
  | .named path =>
    match member with
    | .ok m => if m.facts.form = .record then .named path else .shape
    | .error _ => .shape
  | .shape => .shape

end Made

namespace Builder

/-- What a builder looks at below a node, and the steps that lead there. -/
inductive Uses (b : Builder) :
    Made → Except SchemaError Node → List Step → Except SchemaError Node → Prop where
  | here (made : Made) (x : Except SchemaError Node) : Uses b made x [] x
  | property {made : Made} {n : Node} {p : Property} {child last : Except SchemaError Node}
      {steps : List Step} (form : n.facts.form = .record) (mem : (p, child) ∈ n.properties)
      (kept : made.Keeps b.ignores p.name) (rest : Uses b (made.below p.name) child steps last) :
      Uses b made (.ok n) (.property p.original :: steps) last
  | items {made : Made} {n : Node} {last : Except SchemaError Node} {steps : List Step}
      (form : n.facts.form = .array) (rest : Uses b (made.ofMember n.items) n.items steps last) :
      Uses b made (.ok n) (.items :: steps) last
  | mapValue {made : Made} {n : Node} {last : Except SchemaError Node} {steps : List Step}
      (form : n.facts.form = .map)
      (rest : Uses b (made.ofMember n.mapValue) n.mapValue steps last) :
      Uses b made (.ok n) (.additional :: steps) last

/-- What a builder looks at if the properties of an object become attributes, be it a map
or a record. -/
inductive UsesOfObject (b : Builder) (root : Node) :
    List Step → Except SchemaError Node → Prop where
  | root : UsesOfObject b root [] (.ok root)
  | property {p : Property} {child last : Except SchemaError Node} {steps : List Step}
      (mem : (p, child) ∈ root.properties) (kept : below "" p.name ∉ b.ignores)
      (rest : b.Uses (.named (below "" p.name)) child steps last) :
      UsesOfObject b root (.property p.original :: steps) last

variable {b : Builder} {made : Made} {n root : Node} {x last : Except SchemaError Node}
  {steps : List Step}

/-- What is used of the members of a collection is used of the collection. -/
theorem Uses.member {kind : CollectionKind} {member : Except SchemaError Node}
    (hcontent : n.content = .members kind member)
    (h : b.Uses (made.ofMember member) member steps last) :
    ∃ step : Step, step.identifier? = none ∧ b.Uses made (.ok n) (step :: steps) last := by
  obtain ⟨hform, -, rfl⟩ | ⟨hform, -, rfl⟩ := Node.content_eq_members_iff.mp hcontent
  · exact ⟨.items, rfl, .items hform h⟩
  · exact ⟨.additional, rfl, .mapValue hform h⟩

theorem Uses.leads (h : b.Uses made x steps last) : Node.Leads x steps last := by
  induction h with
  | here => exact .here _
  | property _ hmem _ _ ih => exact .step (.property hmem) ih
  | items _ _ ih => exact .step .items ih
  | mapValue _ _ ih => exact .step .mapValue ih

theorem UsesOfObject.leads (h : b.UsesOfObject root steps last) :
    Node.Leads (.ok root) steps last := by
  cases h with
  | root => exact .here _
  | property hmem _ hrest => exact .step (.property hmem) hrest.leads

/-! ## What is made of what -/

/-- Whether something can be made, whatever it is named, or with which error it fails. -/
inductive Outcome (b : Builder) :
    Made → Except SchemaError Node → Except SchemaError Unit → Prop where
  | named {path : String} {x : Except SchemaError Node} {r : Except SchemaError Unit}
      (name : String) (c : Computability)
      (h : (x.bind (b.named name c path)).map (fun _ => ()) = r) : Outcome b (.named path) x r
  | shape {x : Except SchemaError Node} {r : Except SchemaError Unit}
      (h : (x.bind Node.elementType).map (fun _ => ()) = r) : Outcome b .shape x r

namespace Outcome

variable {r : Except SchemaError Unit}

theorem exists_node (h : b.Outcome made x (.ok ())) : ∃ n, x = .ok n := by
  cases x with
  | ok n => exact ⟨n, rfl⟩
  | error e => cases h with
    | named _ _ h => cases h
    | shape h => cases h

theorem eq_error {e : SchemaError} (h : b.Outcome made (.error e) r) : r = .error e := by
  cases h with
  | named _ _ h => exact h.symm
  | shape h => exact h.symm

/-- Of a scalar something can be made. -/
theorem scalar {kind : ScalarKind} (h : b.Outcome made (.ok n) r)
    (hcontent : n.content = .scalar kind) : r = .ok () := by
  cases h with
  | named name c h =>
    change (b.named name c _ n).map _ = r at h
    rw [named_eq_content, hcontent] at h
    exact h.symm
  | shape h =>
    change n.elementType.map _ = r at h
    rw [Node.elementType_eq_content, hcontent] at h
    exact h.symm

/-- A collection is made of its members. -/
theorem member {kind : CollectionKind} {member : Except SchemaError Node}
    (h : b.Outcome made (.ok n) r) (hcontent : n.content = .members kind member) :
    b.Outcome (made.ofMember member) member r := by
  cases h with
  | @named path _ _ name c h =>
    change (b.named name c path n).map _ = r at h
    rw [named_eq_content, hcontent] at h
    cases member with
    | error e => exact .shape h
    | ok m =>
      dsimp only [collected] at h
      by_cases hrecord : m.facts.form = .record
      · rw [if_pos hrecord] at h
        rw [Made.ofMember, if_pos hrecord]
        refine .named name c (h ▸ ?_)
        change (b.named name c path m).map _ = _
        rw [named_eq_content, Node.content_eq_record_iff.mpr hrecord]
        cases b.propertyAttributes m.facts path m.properties <;> rfl
      · rw [if_neg hrecord] at h
        rw [Made.ofMember, if_neg hrecord]
        refine .shape (h ▸ ?_)
        change m.elementType.map _ = _
        cases m.elementType <;> rfl
  | shape h =>
    change n.elementType.map _ = r at h
    rw [Node.elementType_eq_content, hcontent] at h
    refine .shape (h ▸ ?_)
    cases member with
    | error e => rfl
    | ok m =>
      change m.elementType.map _ = (m.elementType.map _).map _
      cases m.elementType <;> rfl

/-- A record is made of the properties that are kept. -/
theorem property (h : b.Outcome made (.ok n) (.ok ())) (hcontent : n.content = .record)
    {p : Property} {child : Except SchemaError Node} (hmem : (p, child) ∈ n.properties)
    (hkept : made.Keeps b.ignores p.name) : b.Outcome (made.below p.name) child (.ok ()) := by
  cases h with
  | @named path _ _ name c h =>
    change (b.named name c path n).map _ = _ at h
    rw [named_eq_content, hcontent, map_eq_ok_iff] at h
    obtain ⟨a, ha, -⟩ := h
    obtain ⟨attributes, hattributes, -⟩ := map_eq_ok_iff.mp ha
    obtain ⟨a, ha⟩ := exists_named_of_propertyAttributes_eq_ok hattributes hmem hkept
    exact .named p.name (b.computabilityOf n.facts p) (map_eq_ok_iff.mpr ⟨a, ha, rfl⟩)
  | shape h =>
    change n.elementType.map _ = _ at h
    rw [Node.elementType_eq_content, hcontent, map_eq_ok_iff] at h
    obtain ⟨t, ht, -⟩ := h
    obtain ⟨fields, hfields, -⟩ := map_eq_ok_iff.mp ht
    obtain ⟨t, ht⟩ := Node.exists_elementFields_eq_ok_iff.mp ⟨fields, hfields⟩ p child hmem
    exact .shape (map_eq_ok_iff.mpr ⟨t, ht, rfl⟩)

/-- A record fails because of a property that is kept, and tells its name. -/
theorem exists_property {e : SchemaError} (h : b.Outcome made (.ok n) (.error e))
    (hcontent : n.content = .record) :
    ∃ p child e', (p, child) ∈ n.properties ∧ made.Keeps b.ignores p.name ∧
      b.Outcome (made.below p.name) child (.error e') ∧ e.fault = e'.fault ∧
        e.path = p.name :: e'.path := by
  cases h with
  | @named path _ _ name c h =>
    change (b.named name c path n).map _ = _ at h
    rw [named_eq_content, hcontent, map_eq_error_iff] at h
    obtain ⟨p, child, e', hmem, hkept, hfails, rfl⟩ :=
      propertyAttributes_eq_error (map_eq_error_iff.mp h)
    exact ⟨p, child, e', hmem, hkept, .named _ _ (map_eq_error_iff.mpr hfails), rfl, rfl⟩
  | shape h =>
    change n.elementType.map _ = _ at h
    rw [Node.elementType_eq_content, hcontent, map_eq_error_iff] at h
    obtain ⟨before, p, child, after, e', hsplit, -, hfails, rfl⟩ :=
      Node.elementFields_eq_error_iff.mp (map_eq_error_iff.mp h)
    have hmem : (p, child) ∈ n.properties := by
      rw [hsplit]
      exact List.mem_append_right _ List.mem_cons_self
    exact ⟨p, child, e', hmem, trivial, .shape (map_eq_error_iff.mpr hfails), rfl, rfl⟩

end Outcome

/-! ## Nodes and errors that are used -/

/-- If something is made, everything that is used is a node. -/
theorem Uses.exists_node (huses : b.Uses made x steps last) (h : b.Outcome made x (.ok ())) :
    ∃ m, last = .ok m := by
  induction huses with
  | here => exact h.exists_node
  | property hform hmem hkept _ ih =>
    exact ih (h.property (Node.content_eq_record_iff.mpr hform) hmem hkept)
  | items hform _ ih =>
    exact ih (h.member (Node.content_eq_members_iff.mpr (.inl ⟨hform, rfl, rfl⟩)))
  | mapValue hform _ ih =>
    exact ih (h.member (Node.content_eq_members_iff.mpr (.inr ⟨hform, rfl, rfl⟩)))

/-- An error is passed on from where it is used: its path names the properties on the way. -/
def PassedOn (b : Builder) (made : Made) (x : Except SchemaError Node) (e : SchemaError) : Prop :=
  ∃ steps e', b.Uses made x steps (.error e') ∧ e.fault = e'.fault ∧
    e.path = steps.filterMap Step.identifier? ++ e'.path

/-- Where there is an error instead of a child, it is this error that is used. -/
theorem PassedOn.of_outcome {e : SchemaError}
    (hnode : ∀ m, x = .ok m → b.Outcome made (.ok m) (.error e) → b.PassedOn made (.ok m) e)
    (h : b.Outcome made x (.error e)) : b.PassedOn made x e := by
  cases x with
  | ok m => exact hnode m rfl h
  | error e' =>
    cases h.eq_error
    exact ⟨[], e, .here made _, rfl, rfl⟩

/-- If nothing can be made of a node, then because of an error that is used. -/
theorem Outcome.passedOn (hn : n.Arranged) {e : SchemaError}
    (h : b.Outcome made (.ok n) (.error e)) : b.PassedOn made (.ok n) e := by
  induction hn generalizing made e with
  | @mk n harranged each items mapValue ihproperties ihitems ihvalue =>
    cases hcontent : n.content with
    | scalar kind => cases h.scalar hcontent
    | members kind member =>
      have hmember : b.PassedOn (made.ofMember member) member e := by
        refine .of_outcome (fun m hm hfails => ?_) (h.member hcontent)
        obtain ⟨-, -, rfl⟩ | ⟨-, -, rfl⟩ := Node.content_eq_members_iff.mp hcontent
        · exact ihitems m hm hfails
        · exact ihvalue m hm hfails
      obtain ⟨steps, e', huses, hfault, hpath⟩ := hmember
      obtain ⟨step, hstep, huses⟩ := huses.member hcontent
      exact ⟨step :: steps, e', huses, hfault, by rw [List.filterMap_cons_none hstep, hpath]⟩
    | record =>
      obtain ⟨p, child, e₁, hmem, hkept, hfails, hfault, hpath⟩ := h.exists_property hcontent
      obtain ⟨steps, e', huses, hfault', hpath'⟩ : b.PassedOn (made.below p.name) child e₁ :=
        .of_outcome (fun m hm => ihproperties p m (hm ▸ hmem)) hfails
      have hname := Step.identifier?_property (harranged ▸ hmem)
      refine ⟨.property p.original :: steps, e',
        .property (Node.content_eq_record_iff.mp hcontent) hmem hkept huses,
        hfault.trans hfault', ?_⟩
      rw [List.filterMap_cons_some hname, hpath, hpath', List.cons_append]

/-! ## Objects -/

/-- If the attributes of an object are made, everything that is used is a node. -/
theorem UsesOfObject.exists_node (huses : b.UsesOfObject root steps last)
    {attributes : List Attribute} (h : b.attributes root = .ok attributes) :
    ∃ m, last = .ok m := by
  cases huses with
  | root => exact ⟨root, rfl⟩
  | @property p child _ _ hmem hkept hrest =>
    obtain ⟨-, hbuilt⟩ := attributes_eq_ok_iff.mp h
    obtain ⟨a, ha⟩ := exists_named_of_propertyAttributes_eq_ok hbuilt hmem hkept
    exact hrest.exists_node (.named _ _ (map_eq_ok_iff.mpr ⟨a, ha, rfl⟩))

/-- If they are not, then because of an error that is used, or there is no object. -/
theorem exists_usesOfObject (hroot : root.Arranged) {e : SchemaError}
    (h : b.attributes root = .error e) :
    e.fault = .invalidType root.facts.kind.name ∨
      ∃ steps e', b.UsesOfObject root steps (.error e') ∧ e.fault = e'.fault ∧
        e.path = steps.filterMap Step.identifier? ++ e'.path := by
  unfold attributes at h
  split at h
  · obtain ⟨p, child, e₁, hmem, hkept, hfails, rfl⟩ := propertyAttributes_eq_error h
    obtain ⟨harranged, each, -, -⟩ := hroot
    obtain ⟨steps, e', huses, hfault, hpath⟩ :
        b.PassedOn (.named (ProviderSchema.below "" p.name)) child e₁ :=
      .of_outcome (fun m hm => Outcome.passedOn (each p m (hm ▸ hmem)))
        (.named _ _ (map_eq_error_iff.mpr hfails))
    have hname := Step.identifier?_property (harranged ▸ hmem)
    refine .inr ⟨.property p.original :: steps, e', .property hmem hkept huses, hfault, ?_⟩
    rw [List.filterMap_cons_some hname, List.cons_append, ← hpath]
    rfl
  · cases h
    exact .inl rfl

end Builder

/-! ## The limit -/

namespace OpenApi.Schema

/-- A node is as deep as the walk to its schema is long, which has no more steps than there
may be. -/
def WithinLimit (s : Schema) (values : List Step) (n : Node) : Prop :=
  ∃ steps, s.Steps steps n.schema ∧ steps.filter Step.isIntoValue = values ∧
    steps.length = n.facts.depth ∧ steps.length ≤ maxSchemaDepth

/-- There is a walk with one step more than there may be, and a path names the properties
on it. -/
def BeyondLimit (s : Schema) (values : List Step) (path : List String) : Prop :=
  ∃ steps t, s.Steps steps t ∧ steps.filter Step.isIntoValue = values ∧
    steps.length = maxSchemaDepth + 1 ∧ path = steps.filterMap Step.identifier?

variable {s : Schema} {values : List Step}

theorem Counted.withinLimit {n : Node} (h : s.Counted 0 values (.ok n)) :
    s.WithinLimit values n := by
  cases h with
  | node walk hvalues hcount hle =>
    rw [Nat.zero_add] at hcount
    exact ⟨_, walk, hvalues, hcount.symm, hcount ▸ hle⟩

/-- Only an error that has been counted right tells that a schema is too deep. -/
theorem Counted.beyondLimit {e e' : SchemaError} (h : s.Counted 0 values (.error e'))
    (hfault : e.fault = e'.fault)
    (hpath : e.path = values.filterMap Step.identifier? ++ e'.path) {limit : Nat}
    (hlimit : e.fault = .tooDeep limit) :
    limit = maxSchemaDepth ∧ e' = { fault := .tooDeep maxSchemaDepth } ∧
      s.BeyondLimit values e.path := by
  cases h with
  | tooDeep walk hvalues hcount =>
    rw [hfault] at hlimit
    refine ⟨(SchemaFault.tooDeep.inj hlimit).symm, rfl, _, _, walk, hvalues, ?_, ?_⟩
    · rw [hcount, Nat.zero_add]
    · rw [hpath, List.append_nil, ← hvalues, Step.filterMap_identifier?_filter]
  | other hother => exact absurd (hfault.symm.trans hlimit) (hother limit)

/-- The depth of schemas is limited.  If attributes are made of a schema, or the shape of
its values, then everything that is looked at is a node, at the end of a walk from the
schema with no more steps than there may be: to properties, items, further values and
members of compositions.  If an error tells that a schema is too deep, then there is a walk
with one step more to what is looked at, and the error has the path of the properties on
this walk. -/
theorem within_depth_limit (b : Builder) (s : Schema) :
    (∀ root, s.node = .ok root →
      (∀ attributes, b.attributes root = .ok attributes →
        ∀ values last, b.UsesOfObject root values last →
          ∃ n, last = .ok n ∧ s.WithinLimit values n) ∧
      (∀ type, root.elementType = .ok type →
        ∀ values last, b.Uses .shape (.ok root) values last →
          ∃ n, last = .ok n ∧ s.WithinLimit values n)) ∧
    ∀ e limit, e.fault = .tooDeep limit →
      (s.node = .error e → limit = maxSchemaDepth ∧ s.BeyondLimit [] e.path) ∧
      ∀ root, s.node = .ok root →
        (b.attributes root = .error e → limit = maxSchemaDepth ∧ ∃ values,
          b.UsesOfObject root values (.error { fault := .tooDeep maxSchemaDepth }) ∧
            s.BeyondLimit values e.path) ∧
        (root.elementType = .error e → limit = maxSchemaDepth ∧ ∃ values,
          b.Uses .shape (.ok root) values (.error { fault := .tooDeep maxSchemaDepth }) ∧
            s.BeyondLimit values e.path) := by
  refine ⟨fun root hroot => ⟨fun attributes hbuilt values last huses => ?_,
    fun type htype values last huses => ?_⟩,
    fun e limit hlimit => ⟨fun hnone => ?_, fun root hroot => ⟨fun hfails => ?_, fun hfails => ?_⟩⟩⟩
  · obtain ⟨n, rfl⟩ := huses.exists_node hbuilt
    exact ⟨n, rfl, (counted_of_leads hroot huses.leads).withinLimit⟩
  · obtain ⟨n, rfl⟩ := huses.exists_node (.shape (map_eq_ok_iff.mpr ⟨type, htype, rfl⟩))
    exact ⟨n, rfl, (counted_of_leads hroot huses.leads).withinLimit⟩
  · have hcounted := counted_branch s (Nat.zero_le _) []
    rw [show (branch 0 [] s).bind Branch.toNode = .error e from hnone] at hcounted
    obtain ⟨hmax, -, hbeyond⟩ := hcounted.beyondLimit rfl rfl hlimit
    exact ⟨hmax, hbeyond⟩
  · rcases Builder.exists_usesOfObject (arranged_of_node_eq_ok hroot) hfails with
      hkind | ⟨values, e', huses, hfault, hpath⟩
    · cases hkind.symm.trans hlimit
    · obtain ⟨hmax, rfl, hbeyond⟩ :=
        (counted_of_leads hroot huses.leads).beyondLimit hfault hpath hlimit
      exact ⟨hmax, values, huses, hbeyond⟩
  · obtain ⟨values, e', huses, hfault, hpath⟩ : b.PassedOn .shape (.ok root) e :=
      Builder.Outcome.passedOn (arranged_of_node_eq_ok hroot)
        (.shape (map_eq_error_iff.mpr hfails))
    obtain ⟨hmax, rfl, hbeyond⟩ :=
      (counted_of_leads hroot huses.leads).beyondLimit hfault hpath hlimit
    exact ⟨hmax, values, huses, hbeyond⟩

/-- Texts in lists, so many of them in one another. -/
def listsSchema : Nat → Schema
  | 0 => .inline { type := some (.single .string) } {}
  | n + 1 => .inline { type := some (.single .array) } { items := some (.schema (listsSchema n)) }

/-- An object with a property for such lists. -/
def boxSchema (n : Nat) : Schema :=
  .inline { type := some (.single .object) } { properties := [("deepList", listsSchema n)] }

/-- In 63 lists the texts are as deep as there may be steps; in one more they are too deep. -/
theorem within_depth_limit_boxes :
    (∃ root attributes, (boxSchema 63).node = .ok root ∧
      Builder.attributes { flavor := .resource } root = .ok attributes ∧
      ∀ values last, Builder.UsesOfObject { flavor := .resource } root values last →
        ∃ n, last = .ok n ∧ (boxSchema 63).WithinLimit values n) ∧
    ∃ root e, (boxSchema 64).node = .ok root ∧
      Builder.attributes { flavor := .resource } root = .error e ∧ e.path = ["deep_list"] ∧
      ∃ values, (boxSchema 64).BeyondLimit values e.path := by
  constructor
  · obtain ⟨root, hroot, hbuilt⟩ := exists_ok_of_toOption_map_eq_some
      (show (boxSchema 63).node.toOption.map (fun root =>
          (Builder.attributes { flavor := .resource } root).toOption.map
            fun attributes => attributes.map Attribute.name) = some (some ["deep_list"])
        by decide +kernel)
    obtain ⟨attributes, hattributes, -⟩ := exists_ok_of_toOption_map_eq_some hbuilt
    obtain ⟨hwithin, -⟩ := within_depth_limit { flavor := .resource } (boxSchema 63)
    exact ⟨root, attributes, hroot, hattributes, (hwithin root hroot).1 attributes hattributes⟩
  · obtain ⟨root, hroot, hfailure⟩ := exists_ok_of_toOption_map_eq_some
      (show (boxSchema 64).node.toOption.map (fun root =>
          failure? (Builder.attributes { flavor := .resource } root)) =
          some (some { fault := .tooDeep 64, path := ["deep_list"] })
        by decide +kernel)
    have hfails := eq_error_of_failure?_eq_some hfailure
    obtain ⟨-, hbeyond⟩ := within_depth_limit { flavor := .resource } (boxSchema 64)
    obtain ⟨-, values, -, hwalk⟩ := ((hbeyond _ 64 rfl).2 root hroot).1 hfails
    exact ⟨root, _, hroot, hfails, rfl, values, hwalk⟩

end OpenApi.Schema

end ProviderSchema
