import ProviderSchema.Proofs.Attribute.Pruning
import ProviderSchema.Proofs.Node.BuiltNames
import ProviderSchema.Proofs.Node.Location
import ProviderSchema.Proofs.Text.Identifier

/-!
# The paths of errors

While an error is passed outward it gets the name of every property that it is passed
through, and nothing else adds to its path.  An error that stands in place of a node tells
nothing but a fault (`Schema.failsBare_of_holds`), and properties are named by identifiers
(`Schema.identified_of_node_eq_ok`).  So the path of an error of a builder consists of
identifiers (`Node.Identified.failsAtIdentifiers_attributes`).

No identifier has a dot in it, so different paths are written differently
(`Attribute.dottedPath_inj`).
-/

namespace ProviderSchema

open OpenApi

/-- If the computation fails, the path of the error consists of identifiers. -/
def FailsAtIdentifiers {α : Type} (x : Except SchemaError α) : Prop :=
  ∀ e, x = .error e → ∀ name ∈ e.path, Text.isIdentifier name = true

namespace FailsAtIdentifiers

variable {α β : Type} {x : Except SchemaError α}

theorem ok (a : α) : FailsAtIdentifiers (.ok a : Except SchemaError α) := by
  rintro e ⟨⟩

/-- Where a fault arises it has no path yet. -/
theorem fault (f : SchemaFault) :
    FailsAtIdentifiers (.error { fault := f } : Except SchemaError α) := by
  rintro e ⟨⟩ name hname
  cases hname

/-- An error may be passed on. -/
theorem error (h : FailsAtIdentifiers x) {e : SchemaError} (hx : x = .error e) :
    FailsAtIdentifiers (.error e : Except SchemaError β) := by
  rintro _ ⟨⟩
  exact h e hx

theorem bind {f : α → Except SchemaError β} (h : FailsAtIdentifiers x)
    (hf : ∀ a, x = .ok a → FailsAtIdentifiers (f a)) : FailsAtIdentifiers (x.bind f) := by
  cases x with
  | error e => exact h.error rfl
  | ok a => exact hf a rfl

theorem map (h : FailsAtIdentifiers x) (f : α → β) : FailsAtIdentifiers (x.map f) := by
  cases x with
  | error e => exact h.error rfl
  | ok a => exact .ok _

/-- An error that is passed through a property gets its name. -/
theorem mapError_cons (h : FailsAtIdentifiers x) {name : String}
    (hname : Text.isIdentifier name = true) {f : SchemaError → SchemaError}
    (hf : ∀ e, (f e).path = name :: e.path) : FailsAtIdentifiers (x.mapError f) := by
  cases x with
  | error e =>
    rintro e' ⟨⟩
    rw [hf, List.forall_mem_cons]
    exact ⟨hname, h e rfl⟩
  | ok a => exact .ok _

end FailsAtIdentifiers

/-! ## Schemas that stand for no node -/

/-- If the computation fails, the error tells a fault and not yet where it is. -/
def FailsBare {α : Type} (x : Except SchemaError α) : Prop :=
  ∀ e, x = .error e → ∃ f, e = { fault := f }

namespace FailsBare

variable {α β : Type} {x : Except SchemaError α}

theorem ok (a : α) : FailsBare (.ok a : Except SchemaError α) := by
  rintro e ⟨⟩

theorem fault (f : SchemaFault) : FailsBare (.error { fault := f } : Except SchemaError α) := by
  rintro e ⟨⟩
  exact ⟨f, rfl⟩

/-- An error may be passed on. -/
theorem error (h : FailsBare x) {e : SchemaError} (hx : x = .error e) :
    FailsBare (.error e : Except SchemaError β) := by
  rintro _ ⟨⟩
  exact h e hx

theorem bind {f : α → Except SchemaError β} (h : FailsBare x)
    (hf : ∀ a, x = .ok a → FailsBare (f a)) : FailsBare (x.bind f) := by
  cases x with
  | error e => exact h.error rfl
  | ok a => exact hf a rfl

theorem map (h : FailsBare x) (f : α → β) : FailsBare (x.map f) := by
  cases x with
  | error e => exact h.error rfl
  | ok a => exact .ok _

theorem mapError (h : FailsBare x) {f : SchemaError → SchemaError}
    (hf : ∀ fault, ∃ fault', f { fault := fault } = { fault := fault' }) :
    FailsBare (x.mapError f) := by
  cases x with
  | error e =>
    rintro e' ⟨⟩
    obtain ⟨fault, rfl⟩ := h e rfl
    exact hf fault
  | ok a => exact .ok _

theorem failsAtIdentifiers (h : FailsBare x) : FailsAtIdentifiers x := by
  intro e he name hname
  obtain ⟨f, rfl⟩ := h e he
  cases hname

end FailsBare

/-- Two kinds neither of which stands for both are told. -/
theorem survivor_eq_error {a b : Option SchemaKind} {e : SchemaError}
    (h : survivor a b = .error e) : ∃ names, e = { fault := .severalTypes names } := by
  unfold survivor at h
  (repeat' split at h) <;> cases h
  exact ⟨_, rfl⟩

/-- There are three faults that type names can have. -/
theorem kindOf_eq_error {types : List TypeName} {hasProperties : Bool} {e : SchemaError}
    (h : kindOf types hasProperties = .error e) :
    e = { fault := .noTypeOrComposition } ∨ (∃ names, e = { fault := .severalTypes names }) ∨
      ∃ name, e = { fault := .invalidType name } := by
  have hofType {t : TypeName} {e : SchemaError} (h : SchemaKind.ofType t = .error e) :
      ∃ name, e = { fault := .invalidType name } := by
    cases t <;> cases h
    exact ⟨_, rfl⟩
  unfold kindOf at h
  split at h
  · split at h <;> cases h
    exact .inl rfl
  · exact .inr (.inr (hofType h))
  · split at h
    · cases h
      exact .inr (.inr (hofType ‹_›))
    · split at h
      · cases h
        exact .inr (.inr (hofType ‹_›))
      · exact .inr (.inl (survivor_eq_error (map_eq_error_iff.mp h)))
  · cases h
    exact .inr (.inl ⟨_, rfl⟩)

theorem failsBare_survivor (a b : Option SchemaKind) : FailsBare (survivor a b) := by
  intro e h
  obtain ⟨names, rfl⟩ := survivor_eq_error h
  exact ⟨_, rfl⟩

theorem failsBare_kindOf (types : List TypeName) (hasProperties : Bool) :
    FailsBare (kindOf types hasProperties) := by
  intro e h
  obtain rfl | ⟨_, rfl⟩ | ⟨_, rfl⟩ := kindOf_eq_error h <;> exact ⟨_, rfl⟩

theorem Branch.failsBare_ofPair {first second : Except SchemaError Branch}
    (h : FailsBare first) (h' : FailsBare second) : FailsBare (ofPair first second) := by
  unfold ofPair
  split
  · exact h.error rfl
  · split
    · exact h'.error rfl
    · exact (failsBare_survivor _ _).map _

theorem Branch.failsBare_toNode (branch : Branch) : FailsBare branch.toNode := by
  cases branch with
  | null => exact .fault _
  | node n => exact .ok n

theorem OpenApi.Schema.failsBare_branch (s : Schema) (depth : Nat) (location : List String) :
    FailsBare (branch depth location s) := by
  induction s using Schema.inductionOnHeld generalizing depth location with
  | reference target =>
    rw [branch]
    split <;> exact .fault _
  | inline keywords c ih =>
    obtain ⟨properties, additional, items, allOf, oneOf, anyOf⟩ := c
    have hpair {s s' : Schema} (hs : s ∈ allOf ++ anyOf ++ oneOf)
        (hs' : s' ∈ allOf ++ anyOf ++ oneOf) (depth : Nat) (location : List String) :=
      Branch.failsBare_ofPair (ih s (.composed hs) depth location)
        (ih s' (.composed hs') depth location)
    rw [branch]
    split
    · exact .fault _
    dsimp only
    split
    · exact (ih _ (.composed (by simp)) _ _).map _
    · exact .fault _
    · exact (hpair (by simp) (by simp) _ _).map _
    · exact .fault _
    · exact (hpair (by simp) (by simp) _ _).map _
    · exact .fault _
    · split
      · exact (failsBare_kindOf _ _).error ‹_›
      · exact .ok _
      · exact .ok _

/-- What stands for a child of a node, whether or not there is one. -/
theorem OpenApi.Schema.failsBare_branch_toNode (s : Schema) (depth : Nat)
    (location : List String) : FailsBare ((branch depth location s).bind Branch.toNode) :=
  (failsBare_branch s depth location).bind fun branch _ => branch.failsBare_toNode

theorem exists_mapValueError_eq (f : SchemaFault) :
    ∃ f', mapValueError { fault := f } = { fault := f' } := by
  unfold mapValueError
  split <;> exact ⟨_, rfl⟩

/-! ## Nodes -/

namespace Node

/-- A node, or an error in its place, is among the children of another node. -/
inductive Holds (n : Node) : Except SchemaError Node → Prop where
  | property (p : Property) {child : Except SchemaError Node} (h : (p, child) ∈ n.properties) :
      Holds n child
  | items {child : Except SchemaError Node} (h : n.items = child) : Holds n child
  | mapValue {child : Except SchemaError Node} (h : n.mapValue = child) : Holds n child

/-- Properties are named by identifiers, in the node and in all nodes below it, and of
identifiers consist the paths of the errors that stand in place of nodes. -/
inductive Identified : Node → Prop where
  | mk {n : Node}
      (names : ∀ p child, (p, child) ∈ n.properties → Text.isIdentifier p.name = true)
      (fails : ∀ child, n.Holds child → FailsAtIdentifiers child)
      (each : ∀ child, n.Holds (.ok child) → child.Identified) : Identified n

theorem holds_of_content {n : Node} {kind : CollectionKind} {member : Except SchemaError Node}
    (h : n.content = .members kind member) : n.Holds member := by
  obtain ⟨-, -, hitems⟩ | ⟨-, -, hvalue⟩ := content_eq_members_iff.mp h
  · exact .items hitems
  · exact .mapValue hvalue

/-- The nodes among the children are those that a step leads to. -/
theorem holds_iff_exists_child {n m : Node} : n.Holds (.ok m) ↔ ∃ step, n.Child step m := by
  constructor
  · intro h
    cases h with
    | property p hmem => exact ⟨_, .property hmem⟩
    | items hitems => exact ⟨_, .items hitems⟩
    | mapValue hvalue => exact ⟨_, .mapValue hvalue⟩
  · rintro ⟨step, h⟩
    cases h with
    | property hmem => exact .property _ hmem
    | items hitems => exact .items hitems
    | mapValue hvalue => exact .mapValue hvalue

theorem Holds.of_describedBy {n : Node} {description : Option String}
    {child : Except SchemaError Node} (h : (n.describedBy description).Holds child) :
    n.Holds child := by
  obtain ⟨facts, properties, items, mapValue⟩ := n
  cases description <;> cases h <;> first
    | exact .property _ ‹_›
    | exact .items ‹_›
    | exact .mapValue ‹_›

theorem Identified.describedBy {n : Node} (h : n.Identified) (description : Option String) :
    (n.describedBy description).Identified := by
  obtain ⟨names, fails, each⟩ := h
  refine ⟨fun p child hmem => ?_, fun child h => fails child h.of_describedBy,
    fun child h => each child h.of_describedBy⟩
  cases n
  cases description <;> exact names p child hmem

theorem Identified.of_reaches {n m : Node} {path : List Step} (h : n.Identified)
    (hreach : n.Reaches path m) : m.Identified := by
  refine hreach.forall (fun n m step hn hchild => ?_) h
  obtain ⟨-, -, each⟩ := hn
  exact each m (holds_iff_exists_child.mpr ⟨step, hchild⟩)

end Node

namespace OpenApi.Schema

theorem failsBare_itemNode (depth : Nat) (location : List String)
    (items : Option (Items Schema)) : FailsBare (itemNode depth location items) := by
  unfold itemNode
  split
  · exact failsBare_branch_toNode _ _ _
  · exact .fault _

theorem failsBare_valueNode (depth : Nat) (location : List String)
    (additional : Option (Additional Schema)) :
    FailsBare (valueNode depth location additional) := by
  unfold valueNode
  split
  · exact (failsBare_branch_toNode _ _ _).mapError exists_mapValueError_eq
  · exact .fault _

variable {depth : Nat} {location : List String} {keywords : Keywords} {c : Children Schema}
  {kind : SchemaKind}

/-- An error that stands in place of a child tells nothing but a fault. -/
theorem failsBare_of_holds {child : Except SchemaError Node}
    (h : (ownNode depth location keywords c kind).Holds child) : FailsBare child := by
  cases h with
  | property p hmem =>
    have hentry := (mem_of_mem_arrange hmem).2
    rw [propertyNodes_eq_map, List.mem_map] at hentry
    obtain ⟨⟨name, s⟩, -, heq⟩ := hentry
    obtain ⟨-, rfl⟩ := Prod.mk.inj heq
    exact failsBare_branch_toNode s _ _
  | items hitems =>
    rw [← hitems]
    exact failsBare_itemNode _ _ c.items
  | mapValue hvalue =>
    rw [← hvalue]
    exact failsBare_valueNode _ _ c.additional

/-- A child is the node of a schema that the schema of the node holds. -/
theorem exists_branch_of_holds {child : Node}
    (h : (ownNode depth location keywords c kind).Holds (.ok child)) :
    ∃ s, c.Holds s ∧ ∃ depth location, branch depth location s = .ok (.node child) := by
  cases h with
  | property p hmem =>
    obtain ⟨s, hs, hbranch⟩ := mem_propertyNodes (mem_of_mem_arrange hmem).2
    exact ⟨s, .property _ hs, _, _, hbranch⟩
  | items hitems =>
    obtain ⟨s, hs, hbranch⟩ := itemNode_eq_ok hitems
    exact ⟨s, .items hs, _, _, hbranch⟩
  | mapValue hvalue =>
    obtain ⟨s, hs, hbranch⟩ := valueNode_eq_ok hvalue
    exact ⟨s, .additional hs, _, _, hbranch⟩

/-- A node of its own is identified if the nodes of the schemas below it are. -/
theorem identified_ownNode
    (h : ∀ s, c.Holds s → ∀ depth location n,
      branch depth location s = .ok (.node n) → n.Identified)
    (depth : Nat) (location : List String) (keywords : Keywords) (kind : SchemaKind) :
    (ownNode depth location keywords c kind).Identified := by
  refine .mk (fun p child hmem => ?_) (fun child hchild => ?_) fun child hchild => ?_
  · rw [(mem_of_mem_arrange hmem).1]
    exact Text.isIdentifier_identifier p.original
  · exact (failsBare_of_holds hchild).failsAtIdentifiers
  · obtain ⟨s, hs, depth', location', hbranch⟩ := exists_branch_of_holds hchild
    exact h s hs depth' location' child hbranch

/-- The node of a root schema is identified. -/
theorem identified_of_node_eq_ok {s : Schema} {n : Node} (h : s.node = .ok n) : n.Identified :=
  forall_of_branch_eq_ok (fun _ h => h.describedBy) (fun _ => identified_ownNode) s 0 [] n
    (Branch.bind_toNode_eq_ok_iff.mp h)

end OpenApi.Schema

/-! ## Builds -/

/-- Some property of which nothing is built is not ignored. -/
theorem Builder.propertyAttributes_eq_error {b : Builder} {owner : Facts} {path : String}
    {properties : List (Property × Except SchemaError Node)} {e : SchemaError}
    (h : b.propertyAttributes owner path properties = .error e) :
    ∃ p child e', (p, child) ∈ properties ∧ below path p.name ∉ b.ignores ∧
      child.bind (b.named p.name (b.computabilityOf owner p) (below path p.name)) = .error e' ∧
        e = b.errorAt owner p e' := by
  induction properties with
  | nil =>
    rw [propertyAttributes] at h
    cases h
  | cons entry rest ih =>
    obtain ⟨p, child⟩ := entry
    have hlater (h : b.propertyAttributes owner path rest = .error e) :
        ∃ q child' e', (q, child') ∈ (p, child) :: rest ∧ below path q.name ∉ b.ignores ∧
          child'.bind (b.named q.name (b.computabilityOf owner q) (below path q.name)) =
              .error e' ∧ e = b.errorAt owner q e' := by
      obtain ⟨q, child', e', hmem, hfound⟩ := ih h
      exact ⟨q, child', e', List.mem_cons_of_mem _ hmem, hfound⟩
    by_cases hignored : below path p.name ∈ b.ignores
    · rw [propertyAttributes_cons_of_mem hignored] at h
      exact hlater h
    · rw [propertyAttributes_cons_of_notMem hignored, bind_eq_error_iff] at h
      rcases h with hfirst | ⟨a, -, hrest⟩
      · obtain ⟨e', hchild, rfl⟩ := mapError_eq_error_iff.mp hfirst
        exact ⟨p, child, e', List.mem_cons_self, hignored, hchild, rfl⟩
      · exact hlater (map_eq_error_iff.mp hrest)

/-- What is not built of a node fails with a path of identifiers. -/
structure Node.BuildsAtIdentifiers (b : Builder) (n : Node) : Prop where
  elementType : FailsAtIdentifiers n.elementType
  named : ∀ name c path, FailsAtIdentifiers (b.named name c path n)
  properties : ∀ owner path, FailsAtIdentifiers (b.propertyAttributes owner path n.properties)

namespace Node

variable {b : Builder}

theorem failsAtIdentifiers_elementFields {properties : List (Property × Except SchemaError Node)}
    (h : ∀ p child, (p, child) ∈ properties →
      Text.isIdentifier p.name = true ∧ FailsAtIdentifiers (child.bind elementType)) :
    FailsAtIdentifiers (elementFields properties) := by
  induction properties with
  | nil =>
    rw [elementFields]
    exact .ok _
  | cons entry rest ih =>
    obtain ⟨p, child⟩ := entry
    obtain ⟨hname, hchild⟩ := h p child List.mem_cons_self
    have hrest := ih fun q child hmem => h q child (List.mem_cons_of_mem _ hmem)
    rw [elementFields_cons]
    exact (hchild.mapError_cons hname fun _ => rfl).bind fun _ _ => hrest.map _

theorem failsAtIdentifiers_collected {name : String} {traits : Traits} {kind : CollectionKind}
    {path : String} {member : Except SchemaError Node} (h : FailsAtIdentifiers member)
    (hbuilds : ∀ m, member = .ok m → BuildsAtIdentifiers b m) :
    FailsAtIdentifiers (b.collected name traits kind path member) := by
  rw [Builder.collected_eq_bind]
  refine h.bind fun m hm => ?_
  split
  · exact ((hbuilds m hm).properties m.facts path).map _
  · exact (hbuilds m hm).elementType.map _

theorem Identified.buildsAtIdentifiers {n : Node} (h : n.Identified) (b : Builder) :
    BuildsAtIdentifiers b n := by
  induction h with
  | @mk n names fails each ih =>
    have hchild {child : Except SchemaError Node} (h : n.Holds child) (m : Node)
        (hm : child = .ok m) : BuildsAtIdentifiers b m := ih m (hm ▸ h)
    have hproperties (owner : Facts) (path : String) :
        FailsAtIdentifiers (b.propertyAttributes owner path n.properties) := by
      intro e he
      obtain ⟨p, child, e', hmem, -, hfailed, rfl⟩ := Builder.propertyAttributes_eq_error he
      have hbuilt := (fails child (.property p hmem)).bind fun m hm =>
        (hchild (.property p hmem) m hm).named p.name (b.computabilityOf owner p)
          (ProviderSchema.below path p.name)
      exact List.forall_mem_cons.mpr ⟨names p child hmem, hbuilt e' hfailed⟩
    refine ⟨?_, fun name c path => ?_, hproperties⟩
    · rw [elementType_eq]
      split
      · exact .ok _
      · rw [collectionType_eq_bind]
        exact (fails _ (.items rfl)).bind fun m hm => (hchild (.items rfl) m hm).elementType.map _
      · rw [collectionType_eq_bind]
        exact (fails _ (.mapValue rfl)).bind fun m hm =>
          (hchild (.mapValue rfl) m hm).elementType.map _
      · refine FailsAtIdentifiers.map (failsAtIdentifiers_elementFields fun p child hmem => ?_) _
        exact ⟨names p child hmem, (fails child (.property p hmem)).bind fun m hm =>
          (hchild (.property p hmem) m hm).elementType⟩
    · rw [Builder.named_eq]
      split
      · exact .ok _
      · exact failsAtIdentifiers_collected (fails _ (.items rfl)) (hchild (.items rfl))
      · exact failsAtIdentifiers_collected (fails _ (.mapValue rfl)) (hchild (.mapValue rfl))
      · exact (hproperties n.facts path).map _

/-- The path of an error that attributes are not built for consists of identifiers. -/
theorem Identified.failsAtIdentifiers_attributes {n : Node} (h : n.Identified) (b : Builder) :
    FailsAtIdentifiers (b.attributes n) := by
  unfold Builder.attributes
  split
  · exact (h.buildsAtIdentifiers b).properties n.facts ""
  · exact .fault _

end Node

/-! ## Paths as texts -/

theorem Attribute.toList_dottedPath (names : List String) :
    (dottedPath names).toList = List.intercalate ['.'] (names.map String.toList) := by
  unfold dottedPath
  induction names with
  | nil => rfl
  | cons name rest ih =>
    cases rest with
    | nil => simp [Text.joinWith]
    | cons next rest =>
      rw [Text.joinWith, String.toList_append, String.toList_append, ih]
      · simp only [List.map_cons, List.intercalate_cons_cons]
        rfl
      · simp

theorem Text.dot_notMem_of_isIdentifier {text : String} (h : isIdentifier text = true) :
    '.' ∉ text.toList := by
  unfold isIdentifier at h
  intro hdot
  cases hchars : text.toList with
  | nil =>
    rw [hchars] at hdot
    cases hdot
  | cons c rest =>
    rw [hchars, isIdentifierChars, Bool.and_eq_true, List.all_eq_true] at h
    rw [hchars] at hdot
    rcases List.mem_cons.mp hdot with rfl | hdot
    · exact absurd h.1 (by decide)
    · exact absurd (h.2 _ hdot) (by decide)

/-- Different paths of identifiers are written differently. -/
theorem Attribute.dottedPath_inj {names names' : List String}
    (h : ∀ name ∈ names, Text.isIdentifier name = true)
    (h' : ∀ name ∈ names', Text.isIdentifier name = true) (hne : names ≠ []) (hne' : names' ≠ []) :
    dottedPath names = dottedPath names' ↔ names = names' := by
  have hsplit {names : List String} (h : ∀ name ∈ names, Text.isIdentifier name = true)
      (hne : names ≠ []) : (dottedPath names).toList.splitOn '.' = names.map String.toList := by
    rw [toList_dottedPath]
    refine List.splitOn_intercalate '.' (fun l hl => ?_) (by simpa using hne)
    obtain ⟨name, hname, rfl⟩ := List.mem_map.mp hl
    exact Text.dot_notMem_of_isIdentifier (h name hname)
  refine ⟨fun heq => ?_, congrArg dottedPath⟩
  have hnames : names.map String.toList = names'.map String.toList := by
    rw [← hsplit h hne, ← hsplit h' hne', heq]
  exact List.map_injective_iff.mpr (fun _ _ => String.toList_inj.mp) hnames

end ProviderSchema
