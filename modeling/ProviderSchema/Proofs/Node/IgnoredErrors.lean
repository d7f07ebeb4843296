import ProviderSchema.Proofs.Node.BuiltAlike
import ProviderSchema.Proofs.Node.BuiltPruned
import ProviderSchema.Proofs.Node.ErrorPaths

/-!
# Ignoring the property that an error is about

An error tells the path of the property it happened at, and a builder leaves out the
properties at the paths that it ignores.  But it looks at these paths only where it
makes an attribute of a property.  The fields of an object in the shape of a value,
such as the members of a list in a list, are all made.

`Node.AttributeAt` says that an attribute is made at a path.  If it is, then a builder
that ignores the path of its error does not fail at this path again; if it is not, the
builder fails with the same error (`Builder.attributes_ignoring_path`).
-/

namespace ProviderSchema

open OpenApi
open Attribute (pathOf)

namespace Node

/-- The record whose properties become nested attributes: the node, or the one that the
members of its values are described by. -/
def record? (n : Node) : Option Node :=
  match n.facts.form with
  | .scalar _ => none
  | .array => n.items.toOption.filter fun m => m.facts.form = .record
  | .map => n.mapValue.toOption.filter fun m => m.facts.form = .record
  | .record => some n

/-- A path leads to a property that an attribute is made of, unless it is ignored: it goes
through nested attributes, and not into the shape of a value. -/
inductive AttributeAt : Node → List String → Prop where
  | here {n : Node} {p : Property} {child : Except SchemaError Node}
      (h : (p, child) ∈ n.properties) : AttributeAt n [p.name]
  | inside {n child m : Node} {p : Property} {path : List String}
      (h : (p, .ok child) ∈ n.properties) (hrecord : child.record? = some m)
      (rest : AttributeAt m path) : AttributeAt n (p.name :: path)

theorem record?_cases {n m : Node} (h : n.record? = some m) :
    n.facts.form = .record ∧ m = n ∨
      m.facts.form = .record ∧
        (n.facts.form = .array ∧ n.items = .ok m ∨ n.facts.form = .map ∧ n.mapValue = .ok m) := by
  have hmember {member : Except SchemaError Node}
      (h : (member.toOption.filter fun m => m.facts.form = .record) = some m) :
      member = .ok m ∧ m.facts.form = .record := by
    obtain ⟨hm, hform⟩ := Option.filter_eq_some_iff.mp h
    cases member with
    | error e => cases hm
    | ok m' => exact ⟨congrArg Except.ok (Option.some.inj hm), by simpa using hform⟩
  unfold record? at h
  cases hform : n.facts.form with
  | scalar kind =>
    rw [hform] at h
    cases h
  | array =>
    rw [hform] at h
    obtain ⟨hitems, hm⟩ := hmember h
    exact .inr ⟨hm, .inl ⟨rfl, hitems⟩⟩
  | map =>
    rw [hform] at h
    obtain ⟨hvalue, hm⟩ := hmember h
    exact .inr ⟨hm, .inr ⟨rfl, hvalue⟩⟩
  | record =>
    rw [hform] at h
    exact .inl ⟨rfl, (Option.some.inj h).symm⟩

/-- What passes from the records of the properties on to the node holds of all nodes. -/
theorem inductionOnRecords {motive : Node → Prop}
    (step : ∀ n : Node, (∀ p child m, (p, .ok child) ∈ n.properties → child.record? = some m →
      motive m) → motive n) (n : Node) : motive n := by
  -- the record of a collection is two steps down, so it is carried along with the node
  have h : motive n ∧ ∀ m, n.record? = some m → motive m := by
    induction n using inductionOnChildren with
    | mk n ihproperties ihitems ihvalue =>
      have hn : motive n := step n fun p child m hmem hm => (ihproperties p child hmem).2 m hm
      refine ⟨hn, fun m hm => ?_⟩
      rcases record?_cases hm with ⟨-, rfl⟩ | ⟨-, ⟨-, hitems⟩ | ⟨-, hvalue⟩⟩
      · exact hn
      · exact (ihitems m hitems).1
      · exact (ihvalue m hvalue).1
  exact h.1

theorem exists_reaches_of_record? {n child m : Node} {p : Property}
    (h : (p, .ok child) ∈ n.properties) (hm : child.record? = some m) :
    ∃ steps, n.Reaches steps m := by
  rcases record?_cases hm with ⟨-, rfl⟩ | ⟨-, ⟨-, hitems⟩ | ⟨-, hvalue⟩⟩
  · exact ⟨_, .child (.property h) (.here _)⟩
  · exact ⟨_, .child (.property h) (.child (.items hitems) (.here _))⟩
  · exact ⟨_, .child (.property h) (.child (.mapValue hvalue) (.here _))⟩

/-- A path at which an attribute is made consists of identifiers. -/
theorem AttributeAt.isIdentifier {n : Node} {path : List String} (h : n.AttributeAt path)
    (hn : n.Identified) : ∀ name ∈ path, Text.isIdentifier name = true := by
  induction h with
  | here hmem =>
    obtain ⟨names, -, -⟩ := hn
    exact List.forall_mem_singleton.mpr (names _ _ hmem)
  | inside hmem hrecord _ ih =>
    obtain ⟨steps, hreach⟩ := exists_reaches_of_record? hmem hrecord
    have hnested := ih (hn.of_reaches hreach)
    obtain ⟨names, -, -⟩ := hn
    exact List.forall_mem_cons.mpr ⟨names _ _ hmem, hnested⟩

theorem AttributeAt.ne_nil {n : Node} {path : List String} (h : n.AttributeAt path) :
    path ≠ [] := by
  cases h <;> exact List.cons_ne_nil _ _

end Node

namespace Builder

variable {b : Builder} {n m : Node} {ignores : List String}

/-- What is made of a node with nested attributes is made of the attributes. -/
theorem exists_named_eq_map (b : Builder) (h : n.record? = some m) (name : String)
    (c : Computability) :
    ∃ f : List Attribute → Attribute, ∀ ignores path,
      (b.ignoring ignores).named name c path n =
        ((b.ignoring ignores).propertyAttributes m.facts path m.properties).map f := by
  rcases Node.record?_cases h with ⟨hform, rfl⟩ | ⟨hm, ⟨hform, hitems⟩ | ⟨hform, hvalue⟩⟩
  · refine ⟨.single name (b.traits m.facts c), fun ignores path => ?_⟩
    rw [named_eq, hform]
    rfl
  · refine ⟨.nested name (b.collectionTraits n.facts c n.facts.collectionKind)
      n.facts.collectionKind, fun ignores path => ?_⟩
    rw [named_eq, hform, hitems]
    exact if_pos hm
  · refine ⟨.nested name (b.collectionTraits n.facts c .map) .map, fun ignores path => ?_⟩
    rw [named_eq, hform, hvalue]
    exact if_pos hm

/-- What is made of any other node does not depend on what is ignored. -/
theorem named_ignoring_of_record?_eq_none (b : Builder) (h : n.record? = none)
    (ignores : List String) (name : String) (c : Computability) (path : String) :
    (b.ignoring ignores).named name c path n = b.named name c path n := by
  have hmember {member : Except SchemaError Node}
      (h : (member.toOption.filter fun m => m.facts.form = .record) = none) (traits : Traits)
      (kind : CollectionKind) :
      (b.ignoring ignores).collected name traits kind path member =
        b.collected name traits kind path member := by
    cases member with
    | error e => rfl
    | ok m =>
      have hm : m.facts.form ≠ .record := by simpa [Except.toOption] using h
      rw [collected, collected, if_neg hm, if_neg hm]
  rw [named_eq, named_eq]
  unfold Node.record? at h
  cases hform : n.facts.form with
  | scalar kind => rfl
  | array =>
    rw [hform] at h
    exact hmember h _ _
  | map =>
    rw [hform] at h
    exact hmember h _ _
  | record =>
    rw [hform] at h
    cases h

/-- A builder that fails where it makes an attribute does not ignore the path. -/
theorem pathOf_notMem_of_attributeAt (hn : n.Arranged) {names : List String}
    (h : n.AttributeAt names) {owner : Facts} (path : List String) {e : SchemaError}
    (he : b.propertyAttributes owner (pathOf path) n.properties = .error e)
    (hpath : e.path = names) : pathOf (path ++ names) ∉ b.ignores := by
  induction h generalizing owner path e with
  | @here n p child hmem =>
    obtain ⟨q, child', e', hmem', hignored, -, rfl⟩ := propertyAttributes_eq_error he
    obtain ⟨hname, -⟩ := List.cons_eq_cons.mp hpath
    rwa [← Attribute.pathOf_concat, hname] at hignored
  | @inside n child m p names hmem hrecord _ ih =>
    obtain ⟨q, child', e', hmem', -, hfailed, rfl⟩ := propertyAttributes_eq_error he
    obtain ⟨hname, hpath'⟩ := List.cons_eq_cons.mp hpath
    obtain ⟨steps, hreach⟩ := Node.exists_reaches_of_record? hmem hrecord
    have hm := hn.of_reaches hreach
    -- no two properties have one name, so the one that failed is the one on the path
    have hnames : (n.properties.map (·.1.name)).Nodup := hn.pairwise_name.imp ne_of_lt
    obtain ⟨rfl, rfl⟩ := Prod.mk.inj (List.inj_on_of_nodup_map hnames hmem' hmem hname)
    obtain ⟨f, hf⟩ := exists_named_eq_map b hrecord q.name (b.computabilityOf owner q)
    rw [← Attribute.pathOf_concat] at hfailed
    have hnested := map_eq_error_iff.mp ((hf b.ignores _).symm.trans hfailed)
    have hkept := ih hm _ hnested hpath'
    rwa [List.append_assoc] at hkept

theorem propertyAttributes_ignoring_eq {path : String}
    {properties : List (Property × Except SchemaError Node)}
    (hignores : ∀ p child, (p, child) ∈ properties →
      (below path p.name ∈ ignores ↔ below path p.name ∈ b.ignores))
    (hnamed : ∀ p child, (p, .ok child) ∈ properties → ∀ c,
      (b.ignoring ignores).named p.name c (below path p.name) child =
        b.named p.name c (below path p.name) child) (owner : Facts) :
    (b.ignoring ignores).propertyAttributes owner path properties =
      b.propertyAttributes owner path properties := by
  induction properties with
  | nil => rw [propertyAttributes, propertyAttributes]
  | cons entry rest ih =>
    obtain ⟨p, child⟩ := entry
    have hrest := ih (fun q child hmem => hignores q child (List.mem_cons_of_mem _ hmem))
      fun q child hmem => hnamed q child (List.mem_cons_of_mem _ hmem)
    have hp := hignores p child List.mem_cons_self
    by_cases hignored : below path p.name ∈ b.ignores
    · have hignored' : below path p.name ∈ (b.ignoring ignores).ignores := hp.mpr hignored
      rw [propertyAttributes_cons_of_mem hignored, propertyAttributes_cons_of_mem hignored', hrest]
    · have hignored' : below path p.name ∉ (b.ignoring ignores).ignores := mt hp.mp hignored
      rw [propertyAttributes_cons_of_notMem hignored, propertyAttributes_cons_of_notMem hignored',
        hrest]
      have hchild : child.bind ((b.ignoring ignores).named p.name
            ((b.ignoring ignores).computabilityOf owner p) (below path p.name)) =
          child.bind (b.named p.name (b.computabilityOf owner p) (below path p.name)) := by
        cases child with
        | error e => rfl
        | ok n => exact hnamed p n List.mem_cons_self (b.computabilityOf owner p)
      rw [hchild]
      rfl

/-- Only the paths at which an attribute is made matter to a builder. -/
theorem propertyAttributes_ignoring_congr (b : Builder) (ignores : List String) (n : Node)
    (path : List String) (h : ∀ names, n.AttributeAt names →
      (pathOf (path ++ names) ∈ ignores ↔ pathOf (path ++ names) ∈ b.ignores)) (owner : Facts) :
    (b.ignoring ignores).propertyAttributes owner (pathOf path) n.properties =
      b.propertyAttributes owner (pathOf path) n.properties := by
  induction n using Node.inductionOnRecords generalizing path owner with
  | step n ih =>
    refine propertyAttributes_ignoring_eq (fun p child hmem => ?_) (fun p child hmem c => ?_) owner
    · rw [← Attribute.pathOf_concat]
      exact h _ (.here hmem)
    · rw [← Attribute.pathOf_concat]
      cases hrecord : child.record? with
      | none => exact b.named_ignoring_of_record?_eq_none hrecord ignores _ _ _
      | some m =>
        have hagree (names : List String) (hnames : m.AttributeAt names) :
            pathOf (path ++ [p.name] ++ names) ∈ ignores ↔
              pathOf (path ++ [p.name] ++ names) ∈ b.ignores := by
          rw [List.append_assoc]
          exact h _ (.inside hmem hrecord hnames)
        have hm := ih p child m hmem hrecord (path ++ [p.name]) hagree m.facts
        obtain ⟨f, hf⟩ := exists_named_eq_map b hrecord p.name c
        calc (b.ignoring ignores).named p.name c (pathOf (path ++ [p.name])) child
            = ((b.ignoring ignores).propertyAttributes m.facts (pathOf (path ++ [p.name]))
                m.properties).map f := hf ignores _
          _ = (b.propertyAttributes m.facts (pathOf (path ++ [p.name])) m.properties).map f := by
              rw [hm]
          _ = b.named p.name c (pathOf (path ++ [p.name])) child := (hf b.ignores _).symm

end Builder

/-- A path of identifiers is written in one way. -/
theorem Attribute.pathOf_eq_dottedPath {names : List String}
    (h : ∀ name ∈ names, Text.isIdentifier name = true) : pathOf names = dottedPath names := by
  cases names with
  | nil => rfl
  | cons name rest =>
    exact pathOf_cons_of_ne_empty (Text.ne_empty_of_isIdentifier (h name List.mem_cons_self)) rest

/-- If attributes of a node cannot be built because of a property, then ignoring the
path of the error helps, unless no attribute is made at this path: then the error stays
the same. -/
theorem Builder.attributes_ignoring_path {schema : Schema} {root n : Node} {steps : List Step}
    (hroot : schema.node = .ok root) (hreach : root.Reaches steps n)
    (description : Option String) (b : Builder) {e : SchemaError}
    (h : b.attributes (n.describedBy description) = .error e) (hpath : e.path ≠ []) :
    ((∃ e', (b.ignoring (b.ignores ++ [e.dottedPath])).attributes (n.describedBy description) =
        .error e' ∧ e'.path = e.path) ↔ ¬ (n.describedBy description).AttributeAt e.path) ∧
      (¬ (n.describedBy description).AttributeAt e.path →
        (b.ignoring (b.ignores ++ [e.dottedPath])).attributes (n.describedBy description) =
          .error e) := by
  have harranged : (n.describedBy description).Arranged :=
    ((Schema.arranged_of_node_eq_ok hroot).of_reaches hreach).describedBy description
  have hidentified : (n.describedBy description).Identified :=
    ((Schema.identified_of_node_eq_ok hroot).of_reaches hreach).describedBy description
  generalize n.describedBy description = m at h harranged hidentified ⊢
  have hnames := hidentified.failsAtIdentifiers_attributes b e h
  have hkind : m.facts.kind = .object := by
    by_contra hkind
    rw [Builder.attributes, if_neg hkind] at h
    cases h
    exact hpath rfl
  unfold Builder.attributes at h ⊢
  rw [if_pos hkind] at h ⊢
  have hsame (hnone : ¬ m.AttributeAt e.path) :
      (b.ignoring (b.ignores ++ [e.dottedPath])).propertyAttributes m.facts "" m.properties =
        .error e := by
    rw [← h]
    refine b.propertyAttributes_ignoring_congr _ m [] (fun names hmade => ?_) m.facts
    -- only the path of the error is new, and it is not written as any other one
    have hother : pathOf names ≠ e.dottedPath := by
      rw [Attribute.pathOf_eq_dottedPath (hmade.isIdentifier hidentified)]
      intro heq
      have hnames' := hmade.isIdentifier hidentified
      exact hnone ((Attribute.dottedPath_inj hnames' hnames hmade.ne_nil hpath).mp heq ▸ hmade)
    simp [hother]
  refine ⟨⟨?_, fun hnone => ⟨e, hsame hnone, rfl⟩⟩, hsame⟩
  rintro ⟨e', he', hpath'⟩ hmade
  have hkept := pathOf_notMem_of_attributeAt harranged hmade [] he' hpath'
  rw [List.nil_append, Attribute.pathOf_eq_dottedPath hnames] at hkept
  exact hkept (List.mem_append_right _ (List.mem_singleton_self _))

/-- Rows of cells, which have a value and a note of no type. -/
def rowsSchema : Schema :=
  .inline { type := some (.single .array) }
    { items := some (.schema (.inline { type := some (.single .array) }
      { items := some (.schema (.inline { type := some (.single .object) }
        { properties := [("note", .inline {} {}),
          ("value", .inline { type := some (.single .string) } {})] })) })) }

/-- A sheet of rows. -/
def sheetSchema : Schema :=
  .inline { type := some (.single .object) } { properties := [("rows", rowsSchema)] }

/-- A sheet of rows with labels, which are a list of nothing. -/
def labelledSheetSchema : Schema :=
  .inline { type := some (.single .object) }
    { properties := [("labels", .inline { type := some (.single .array) } {}),
      ("rows", rowsSchema)] }

/-- The labels may be ignored.  Then a note is what is wrong, and it cannot be ignored. -/
theorem Builder.attributes_ignoring_path_labelledSheet :
    ∃ root e e', labelledSheetSchema.node = .ok root ∧ root.Reaches [] root ∧
      (Builder.attributes { flavor := .resource } root = .error e ∧ e.path = ["labels"]) ∧
        (Builder.attributes { flavor := .resource, ignores := ["labels"] } root = .error e' ∧
          e'.path = ["rows", "note"]) ∧
          root.AttributeAt ["labels"] ∧ ¬ root.AttributeAt ["rows", "note"] ∧
            Builder.attributes { flavor := .resource, ignores := ["labels", "rows.note"] } root =
              .error e' := by
  obtain ⟨root, hroot, hfailures⟩ := exists_ok_of_toOption_map_eq_some
    (show labelledSheetSchema.node.toOption.map (fun root =>
        [[], ["labels"], ["labels", "rows.note"]].map fun ignores =>
          failure? (Builder.attributes { flavor := .resource, ignores } root)) =
      some [some { fault := .noItems, path := ["labels"] },
        some { fault := .noTypeOrComposition, path := ["rows", "note"] },
        some { fault := .noTypeOrComposition, path := ["rows", "note"] }]
      by decide +kernel)
  rw [List.map_cons, List.map_cons, List.map_singleton, List.cons_eq_cons, List.cons_eq_cons,
    List.singleton_inj] at hfailures
  obtain ⟨hfirst, hsecond, hthird⟩ := hfailures
  have hlabels := eq_error_of_failure?_eq_some hfirst
  have hnote := eq_error_of_failure?_eq_some hsecond
  have hagain := eq_error_of_failure?_eq_some hthird
  have hsame : root.describedBy none = root := by
    cases root
    rfl
  have hmade := attributes_ignoring_path hroot (.here root) none { flavor := .resource }
    (hsame ▸ hlabels) (List.cons_ne_nil _ _)
  have hunmade := attributes_ignoring_path hroot (.here root) none
    { flavor := .resource, ignores := ["labels"] } (hsame ▸ hnote) (List.cons_ne_nil _ _)
  rw [hsame] at hmade hunmade
  have hnone := hunmade.1.mp ⟨_, hagain, rfl⟩
  refine ⟨root, _, _, hroot, .here root, ⟨hlabels, rfl⟩, ⟨hnote, rfl⟩, ?_, hnone, hunmade.2 hnone⟩
  by_contra hunmade
  have hfails := (hmade.2 hunmade).symm.trans hnote
  cases hfails

/-- Ignoring what an error tells does not always help: there are fields that no attribute
is made of. -/
theorem Builder.not_forall_path_ne_of_ignoring :
    ¬ ∀ (schema : Schema) (root n : Node) (steps : List Step) (b : Builder) (e e' : SchemaError),
      schema.node = .ok root → root.Reaches steps n → n.facts.kind = .object →
        b.attributes n = .error e → e.path ≠ [] →
          (b.ignoring (b.ignores ++ [e.dottedPath])).attributes n = .error e' →
            e'.path ≠ e.path := by
  intro h
  obtain ⟨root, hroot, hfailures⟩ := exists_ok_of_toOption_map_eq_some
    (show sheetSchema.node.toOption.map (fun root =>
        (root.facts.kind, [[], ["rows.note"]].map fun ignores =>
          failure? (Builder.attributes { flavor := .resource, ignores } root))) =
      some (.object, [some { fault := .noTypeOrComposition, path := ["rows", "note"] },
        some { fault := .noTypeOrComposition, path := ["rows", "note"] }])
      by decide +kernel)
  rw [List.map_cons, List.map_singleton, Prod.mk.injEq, List.cons_eq_cons,
    List.singleton_inj] at hfailures
  obtain ⟨hkind, hfirst, hsecond⟩ := hfailures
  have hnote := eq_error_of_failure?_eq_some hfirst
  have hagain := eq_error_of_failure?_eq_some hsecond
  exact h sheetSchema root root [] { flavor := .resource } _ _ hroot (.here root) hkind hnote
    (List.cons_ne_nil _ _) hagain rfl

end ProviderSchema
