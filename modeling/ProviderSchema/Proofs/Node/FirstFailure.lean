import ProviderSchema.Proofs.Node.BuiltAlike
import ProviderSchema.Proofs.Node.ErasedAttribute
import ProviderSchema.Proofs.Node.ErrorPaths

/-!
# The first property that fails

The properties of an object are built in order, each with all that is below it, and the
first error is the one that is reported.  Its path names the properties that it was
passed through.  So the path can be walked again from the object: through the named
properties, and between them through the items of arrays and the values of maps, which
add nothing to the path.  Before every named property there are only properties that
build, and where the walk ends the fault arises (`Builder.FirstFailure`).

With nothing left out and without lines the two compilers of nodes agree
(`Builder.agrees`), so the proofs follow the simpler one, `Node.elementType`.
-/

namespace ProviderSchema

open OpenApi

namespace Node

/-! ## Records inside collections -/

/-- The values of a node are records, or are collections of them to any depth. -/
inductive Inner : Node → Node → Prop where
  | here {n : Node} (h : n.content = .record) : Inner n n
  | member {n m last : Node} {kind : CollectionKind} (h : n.content = .members kind (.ok m))
      (rest : Inner m last) : Inner n last

/-- An object is met on a walk from another one: through properties, and from each of them
to the records inside its values.  A map leads to its values and not to the properties that
it declares, which are not built. -/
inductive Visits : Node → Node → Prop where
  | here (n : Node) : Visits n n
  | property {n child o last : Node} {p : Property} (h : (p, .ok child) ∈ n.properties)
      (inner : child.Inner o) (rest : Visits o last) : Visits n last

theorem Inner.exists_reaches {n o : Node} (h : n.Inner o) : ∃ steps, n.Reaches steps o := by
  induction h with
  | here _ => exact ⟨[], .here _⟩
  | member hmember _ ih =>
    obtain ⟨step, hchild⟩ := holds_iff_exists_child.mp (holds_of_content hmember)
    obtain ⟨steps, hreach⟩ := ih
    exact ⟨step :: steps, .child hchild hreach⟩

/-- What a node with records inside is made of is made of their fields. -/
theorem Inner.exists_elementType_eq_map {n o : Node} (h : n.Inner o) :
    ∃ f : List (String × ElementType) → ElementType,
      n.elementType = (elementFields o.properties).map f := by
  induction h with
  | here hrecord =>
    refine ⟨.object, ?_⟩
    rw [elementType_eq_content, hrecord]
  | @member n m last kind hmember _ ih =>
    obtain ⟨f, hf⟩ := ih
    refine ⟨fun fields => .collection kind (f fields), ?_⟩
    rw [elementType_eq_content, hmember]
    dsimp only [collectionType]
    rw [hf]
    cases elementFields last.properties <;> rfl

/-! ## Errors in place of nodes -/

/-- The errors that stand in place of nodes below a node tell nothing but a fault. -/
inductive BareFaults : Node → Prop where
  | mk {n : Node} (fails : ∀ child, n.Holds child → FailsBare child)
      (each : ∀ child, n.Holds (.ok child) → child.BareFaults) : BareFaults n

theorem BareFaults.describedBy {n : Node} (h : n.BareFaults) (description : Option String) :
    (n.describedBy description).BareFaults := by
  obtain ⟨fails, each⟩ := h
  exact ⟨fun child h => fails child h.of_describedBy, fun child h => each child h.of_describedBy⟩

theorem BareFaults.of_reaches {n m : Node} {steps : List Step} (h : n.BareFaults)
    (hreach : n.Reaches steps m) : m.BareFaults := by
  refine hreach.forall (fun n m step hn hchild => ?_) h
  obtain ⟨-, each⟩ := hn
  exact each m (holds_iff_exists_child.mpr ⟨step, hchild⟩)

theorem bareFaults_of_node_eq_ok {s : Schema} {n : Node} (h : s.node = .ok n) : n.BareFaults := by
  refine Schema.forall_of_branch_eq_ok (fun _ h => h.describedBy)
    (fun c hchildren depth location keywords kind => ?_) s 0 [] n
    (Branch.bind_toNode_eq_ok_iff.mp h)
  refine .mk (fun child hchild => Schema.failsBare_of_holds hchild) fun child hchild => ?_
  obtain ⟨s, hs, depth', location', hbranch⟩ := Schema.exists_branch_of_holds hchild
  exact hchildren s hs depth' location' child hbranch

/-! ## Fields up to the first one that fails -/

/-- The shape of a node fails at the node or inside it, in the fields of a record. -/
theorem BareFaults.exists_inner_of_elementType_eq_error {n : Node} (h : n.BareFaults)
    {e : SchemaError} (he : n.elementType = .error e) :
    (∃ f, e = { fault := f }) ∨ ∃ o, n.Inner o ∧ elementFields o.properties = .error e := by
  induction h with
  | @mk n fails _ ih =>
    rw [elementType_eq_content] at he
    cases hcontent : n.content with
    | scalar kind =>
      rw [hcontent] at he
      cases he
    | members kind member =>
      rw [hcontent] at he
      have hheld := holds_of_content hcontent
      cases member with
      | error e' =>
        cases he
        exact .inl (fails _ hheld e rfl)
      | ok m =>
        rcases ih m hheld (map_eq_error_iff.mp he) with hbare | ⟨o, hinner, hfields⟩
        · exact .inl hbare
        · exact .inr ⟨o, .member hcontent hinner, hfields⟩
    | record =>
      rw [hcontent] at he
      exact .inr ⟨n, .here hcontent, map_eq_error_iff.mp he⟩

variable {properties : List (Property × Except SchemaError Node)}

theorem exists_elementFields_eq_ok_iff :
    (∃ fields, elementFields properties = .ok fields) ↔
      ∀ p child, (p, child) ∈ properties → ∃ t, child.bind elementType = .ok t := by
  induction properties with
  | nil => simp [elementFields]
  | cons entry rest ih =>
    obtain ⟨p, child⟩ := entry
    have hcons : (∃ fields, elementFields ((p, child) :: rest) = .ok fields) ↔
        (∃ t, child.bind elementType = .ok t) ∧ ∃ fields, elementFields rest = .ok fields := by
      rw [elementFields_cons]
      cases child.bind elementType <;> cases elementFields rest <;>
        simp [Except.mapError, Except.bind, Except.map]
    rw [hcons, ih]
    constructor
    · rintro ⟨hfirst, hrest⟩ q other hmem
      rcases List.mem_cons.mp hmem with heq | hmem
      · cases heq
        exact hfirst
      · exact hrest q other hmem
    · exact fun h => ⟨h p child List.mem_cons_self, fun q other hmem =>
        h q other (List.mem_cons_of_mem _ hmem)⟩

/-- The error is that of the first property whose shape fails. -/
theorem elementFields_eq_error_iff {e : SchemaError} :
    elementFields properties = .error e ↔
      ∃ before p child after e', properties = before ++ (p, child) :: after ∧
        (∀ q other, (q, other) ∈ before → ∃ t, other.bind elementType = .ok t) ∧
          child.bind elementType = .error e' ∧ e = e'.inProperty p.name := by
  constructor
  · intro h
    induction properties with
    | nil => cases h
    | cons entry rest ih =>
      obtain ⟨p, child⟩ := entry
      rw [elementFields_cons, bind_eq_error_iff] at h
      rcases h with hfirst | ⟨t, hfirst, hrest⟩
      · obtain ⟨e', hchild, rfl⟩ := mapError_eq_error_iff.mp hfirst
        exact ⟨[], p, child, rest, e', rfl, by simp, hchild, rfl⟩
      · obtain ⟨before, q, other, after, e', rfl, hbefore, hfound⟩ := ih (map_eq_error_iff.mp hrest)
        refine ⟨(p, child) :: before, q, other, after, e', rfl, fun r m hmem => ?_, hfound⟩
        rcases List.mem_cons.mp hmem with heq | hmem
        · cases heq
          exact ⟨t, mapError_eq_ok_iff.mp hfirst⟩
        · exact hbefore r m hmem
  · rintro ⟨before, p, child, after, e', rfl, hbefore, hchild, rfl⟩
    induction before with
    | nil =>
      rw [List.nil_append, elementFields_cons, hchild]
      rfl
    | cons entry before ih =>
      obtain ⟨q, other⟩ := entry
      obtain ⟨t, ht⟩ := hbefore q other List.mem_cons_self
      have hrest := ih fun r m hmem => hbefore r m (List.mem_cons_of_mem _ hmem)
      rw [List.cons_append, elementFields_cons, ht, hrest]
      rfl

/-- Of the properties of an arranged node those come first that have a smaller name. -/
theorem Arranged.mem_before_iff {n : Node} (h : n.Arranged) {p : Property}
    {child : Except SchemaError Node} {before after : List (Property × Except SchemaError Node)}
    (hsplit : n.properties = before ++ (p, child) :: after) (q : Property)
    (other : Except SchemaError Node) :
    (q, other) ∈ before ↔ (q, other) ∈ n.properties ∧ q.name < p.name := by
  have hsorted := h.pairwise_name
  rw [hsplit, List.pairwise_map, List.pairwise_append, List.pairwise_cons] at hsorted
  obtain ⟨-, ⟨hafter, -⟩, hbefore⟩ := hsorted
  rw [hsplit]
  constructor
  · exact fun hmem => ⟨List.mem_append_left _ hmem, hbefore _ hmem _ List.mem_cons_self⟩
  · rintro ⟨hmem, hlt⟩
    rcases List.mem_append.mp hmem with hmem | hmem
    · exact hmem
    · rcases List.mem_cons.mp hmem with heq | hmem
      · cases heq
        exact absurd hlt (lt_irrefl _)
      · exact absurd hlt (lt_asymm (hafter _ hmem))

end Node

/-! ## Properties in place -/

namespace Builder

/-- A property of an object builds, as an attribute and as a field. -/
structure Builds (b : Builder) (owner : Facts) (p : Property) (child : Except SchemaError Node) :
    Prop where
  named : ∀ path, ∃ a,
    child.bind (b.named p.name (b.computabilityOf owner p) path) = .ok a
  shaped : ∃ t, child.bind Node.elementType = .ok t

/-- A property of an object fails, as an attribute and as a field, with an error that tells
a fault and has no path. -/
structure FailsWith (b : Builder) (owner : Facts) (p : Property) (child : Except SchemaError Node)
    (fault : SchemaFault) : Prop where
  named : ∀ path,
    child.bind (b.named p.name (b.computabilityOf owner p) path) = .error { fault }
  shaped : child.bind Node.elementType = .error { fault }

/-- The names of a path lead through properties of a node and of the records inside their
values.  All properties with smaller names build, and the last one fails with a fault. -/
inductive FirstFailure (b : Builder) (fault : SchemaFault) : Node → List String → Prop where
  | here {n : Node} {p : Property} {child : Except SchemaError Node}
      (h : (p, child) ∈ n.properties)
      (earlier : ∀ q other, (q, other) ∈ n.properties → q.name < p.name →
        b.Builds n.facts q other)
      (fails : b.FailsWith n.facts p child fault) : FirstFailure b fault n [p.name]
  | inside {n child o : Node} {p : Property} {path : List String}
      (h : (p, .ok child) ∈ n.properties)
      (earlier : ∀ q other, (q, other) ∈ n.properties → q.name < p.name →
        b.Builds n.facts q other)
      (inner : child.Inner o) (rest : FirstFailure b fault o path) :
      FirstFailure b fault n (p.name :: path)

variable {b : Builder} {owner : Facts} {p : Property} {child : Except SchemaError Node}

theorem map_erased_bind_named (hignores : b.ignores = []) (hlines : b.lines = none) (name : String)
    (c : Computability) (path : String) (child : Except SchemaError Node) :
    (child.bind (b.named name c path)).map Attribute.erased = child.bind Node.elementType := by
  cases child with
  | error e => rfl
  | ok m => exact (agrees hignores hlines m).named name c path

theorem builds_iff (hignores : b.ignores = []) (hlines : b.lines = none) :
    b.Builds owner p child ↔ ∃ t, child.bind Node.elementType = .ok t := by
  refine ⟨Builds.shaped, fun h => ⟨fun path => ?_, h⟩⟩
  obtain ⟨t, ht⟩ := h
  rw [← map_erased_bind_named hignores hlines p.name (b.computabilityOf owner p) path] at ht
  obtain ⟨a, ha, -⟩ := map_eq_ok_iff.mp ht
  exact ⟨a, ha⟩

theorem failsWith_iff (hignores : b.ignores = []) (hlines : b.lines = none) {fault : SchemaFault} :
    b.FailsWith owner p child fault ↔ child.bind Node.elementType = .error { fault } := by
  refine ⟨FailsWith.shaped, fun h => ⟨fun path => ?_, h⟩⟩
  rw [← map_erased_bind_named hignores hlines p.name (b.computabilityOf owner p) path] at h
  exact map_eq_error_iff.mp h

/-! ## Where the fields of an object fail -/

/-- The path of an error leads to the first property that fails. -/
theorem firstFailure_of_elementFields_eq_error (hignores : b.ignores = []) (hlines : b.lines = none)
    {n : Node} (harranged : n.Arranged) (hfaults : n.BareFaults) {e : SchemaError}
    (he : Node.elementFields n.properties = .error e) :
    e.line = none ∧ b.FirstFailure e.fault n e.path := by
  -- by induction on the path, which has one name more for every object that is walked through
  generalize hpath : e.path = path
  induction path generalizing n e with
  | nil =>
    obtain ⟨_, p, _, _, e', _, _, _, rfl⟩ := Node.elementFields_eq_error_iff.mp he
    cases hpath
  | cons name path ih =>
    obtain ⟨before, p, child, after, e', hsplit, hbefore, hchild, rfl⟩ :=
      Node.elementFields_eq_error_iff.mp he
    obtain ⟨rfl, rfl⟩ := List.cons_eq_cons.mp hpath
    have hmem : (p, child) ∈ n.properties := by
      rw [hsplit]
      exact List.mem_append_right _ List.mem_cons_self
    have hearlier (q : Property) (other : Except SchemaError Node) (hq : (q, other) ∈ n.properties)
        (hlt : q.name < p.name) : b.Builds n.facts q other :=
      (builds_iff hignores hlines).mpr
        (hbefore q other ((harranged.mem_before_iff hsplit q other).mpr ⟨hq, hlt⟩))
    have hhere (hbare : ∃ f, e' = { fault := f }) :
        e'.line = none ∧ b.FirstFailure e'.fault n (p.name :: e'.path) := by
      obtain ⟨f, rfl⟩ := hbare
      exact ⟨rfl, .here hmem hearlier ((failsWith_iff hignores hlines).mpr hchild)⟩
    obtain ⟨fails, each⟩ := hfaults
    cases child with
    | error _ =>
      cases hchild
      exact hhere (fails _ (.property p hmem) e' rfl)
    | ok m =>
      have hm := each m (.property p hmem)
      rcases hm.exists_inner_of_elementType_eq_error hchild with hbare | ⟨o, hinner, hfields⟩
      · exact hhere hbare
      · obtain ⟨steps, hreach⟩ := hinner.exists_reaches
        obtain ⟨-, eachArranged, -, -⟩ := harranged
        obtain ⟨hline, hrest⟩ := ih ((eachArranged p m hmem).of_reaches hreach)
          (hm.of_reaches hreach) hfields rfl
        exact ⟨hline, .inside hmem hearlier hinner hrest⟩

/-- Where a property fails and all before it build, the error is that of this property. -/
theorem FirstFailure.elementFields_eq_error {fault : SchemaFault} {n : Node} {path : List String}
    (h : b.FirstFailure fault n path) (hn : n.Arranged) :
    Node.elementFields n.properties = .error { fault, path } := by
  have hfirst {n : Node} {p : Property} {child : Except SchemaError Node} {e : SchemaError}
      (hn : n.Arranged) (hmem : (p, child) ∈ n.properties)
      (hearlier : ∀ q other, (q, other) ∈ n.properties → q.name < p.name → b.Builds n.facts q other)
      (he : child.bind Node.elementType = .error e) :
      Node.elementFields n.properties = .error (e.inProperty p.name) := by
    obtain ⟨before, after, hsplit⟩ := List.append_of_mem hmem
    refine Node.elementFields_eq_error_iff.mpr ⟨before, p, child, after, e, hsplit, ?_, he, rfl⟩
    intro q other hq
    obtain ⟨hq, hlt⟩ := (hn.mem_before_iff hsplit q other).mp hq
    exact (hearlier q other hq hlt).shaped
  induction h with
  | here hmem hearlier hfails => exact hfirst hn hmem hearlier hfails.shaped
  | @inside n child o p path hmem hearlier hinner _ ih =>
    obtain ⟨steps, hreach⟩ := hinner.exists_reaches
    obtain ⟨f, hf⟩ := hinner.exists_elementType_eq_map
    have hfields := ih (hn.of_reaches (.child (.property hmem) hreach))
    have hchild : child.elementType = .error { fault, path } :=
      hf.trans (map_eq_error_iff.mpr hfields)
    exact hfirst hn hmem hearlier hchild

/-- If the properties of an object build, so do those of all objects that it leads to. -/
theorem exists_elementFields_eq_ok_of_visits {n o : Node} (hvisits : n.Visits o)
    (h : ∃ fields, Node.elementFields n.properties = .ok fields) :
    ∃ fields, Node.elementFields o.properties = .ok fields := by
  induction hvisits with
  | here => exact h
  | property hmem hinner _ ih =>
    obtain ⟨t, ht⟩ := Node.exists_elementFields_eq_ok_iff.mp h _ _ hmem
    obtain ⟨f, hf⟩ := hinner.exists_elementType_eq_map
    obtain ⟨fields, hfields, -⟩ := map_eq_ok_iff.mp (hf.symm.trans ht)
    exact ih ⟨fields, hfields⟩

/-- An object fails with an error exactly if the path of the error leads to the first
property that fails, and with the fault that this property has in its place.  It is built
exactly if every property of every object that it leads to builds. -/
theorem attributes_eq_error_iff_firstFailure {schema : Schema} {root n : Node} {steps : List Step}
    (hroot : schema.node = .ok root) (hreach : root.Reaches steps n)
    (hobject : n.facts.kind = .object) (description : Option String) {b : Builder}
    (hignores : b.ignores = []) (hlines : b.lines = none) :
    (∀ e, b.attributes (n.describedBy description) = .error e ↔
        e.line = none ∧ b.FirstFailure e.fault (n.describedBy description) e.path) ∧
      ((∃ attributes, b.attributes (n.describedBy description) = .ok attributes) ↔
        ∀ o, (n.describedBy description).Visits o →
          ∀ p child, (p, child) ∈ o.properties → b.Builds o.facts p child) := by
  have harranged : (n.describedBy description).Arranged :=
    ((Schema.arranged_of_node_eq_ok hroot).of_reaches hreach).describedBy description
  have hfaults : (n.describedBy description).BareFaults :=
    ((Node.bareFaults_of_node_eq_ok hroot).of_reaches hreach).describedBy description
  have hkind : (n.describedBy description).facts.kind = .object := by
    cases n
    cases description <;> exact hobject
  generalize n.describedBy description = m at harranged hfaults hkind ⊢
  have hbuilt : (b.attributes m).map Attribute.erasedFields = Node.elementFields m.properties := by
    unfold Builder.attributes
    rw [if_pos hkind]
    exact (agrees hignores hlines m).properties m.facts ""
  refine ⟨fun e => ?_, ?_⟩
  · rw [← map_eq_error_iff (f := Attribute.erasedFields), hbuilt]
    constructor
    · exact firstFailure_of_elementFields_eq_error hignores hlines harranged hfaults
    · rintro ⟨hline, hfirst⟩
      rw [hfirst.elementFields_eq_error harranged, ← hline]
  · have hfields : (∃ attributes, b.attributes m = .ok attributes) ↔
        ∃ fields, Node.elementFields m.properties = .ok fields := by
      rw [← hbuilt]
      cases b.attributes m <;> simp [Except.map]
    rw [hfields]
    constructor
    · intro h o hvisits p child hmem
      have ho := exists_elementFields_eq_ok_of_visits hvisits h
      have hchild := Node.exists_elementFields_eq_ok_iff.mp ho p child hmem
      exact (builds_iff hignores hlines).mpr hchild
    · exact fun h => Node.exists_elementFields_eq_ok_iff.mpr fun p child hmem =>
        (h m (.here m) p child hmem).shaped

/-- A house with an owner, who has an age, and pets in groups.  A pet has a name and a list
of tags. -/
def houseSchema (tags : Children Schema) : Schema :=
  .inline { type := some (.single .object) }
    { properties := [("owner", .inline { type := some (.single .object) }
      { properties := [("pets", .inline { type := some (.single .array) }
          { items := some (.schema (.inline { type := some (.single .array) }
            { items := some (.schema (.inline { type := some (.single .object) }
              { properties := [("tags", .inline { type := some (.single .array) } tags),
                ("name", .inline { type := some (.single .string) } {})] })) })) }),
        ("age", .inline { type := some (.single .integer) } {})] })] }

/-- Tags of nothing are what fails first; if they are texts, everything builds. -/
theorem attributes_eq_error_iff_firstFailure_house :
    (∃ root, (houseSchema {}).node = .ok root ∧
        Builder.FirstFailure { flavor := .resource } .noItems root ["owner", "pets", "tags"]) ∧
      ∃ root, (houseSchema { items := some (.schema
          (.inline { type := some (.single .string) } {})) }).node = .ok root ∧
        ∀ o, root.Visits o → ∀ p child, (p, child) ∈ o.properties →
          Builder.Builds { flavor := .resource } o.facts p child := by
  constructor
  · obtain ⟨root, hroot, hfound⟩ := exists_ok_of_toOption_map_eq_some
      (show (houseSchema {}).node.toOption.map (fun root =>
          (root.facts.kind, failure? (Builder.attributes { flavor := .resource } root))) =
        some (.object, some { fault := .noItems, path := ["owner", "pets", "tags"] })
        by decide +kernel)
    obtain ⟨hobject, hfailure⟩ := Prod.mk.inj hfound
    have hfirst := ((attributes_eq_error_iff_firstFailure hroot (.here root) hobject none
      (b := { flavor := .resource }) rfl rfl).1 _).mp
        (root.describedBy_none.symm ▸ eq_error_of_failure?_eq_some hfailure)
    rw [Node.describedBy_none] at hfirst
    exact ⟨root, hroot, hfirst.2⟩
  · obtain ⟨root, hroot, hfound⟩ := exists_ok_of_toOption_map_eq_some
      (show (houseSchema { items := some (.schema
            (.inline { type := some (.single .string) } {})) }).node.toOption.map (fun root =>
          (root.facts.kind, (Builder.attributes { flavor := .resource } root).toOption.map
            fun attributes => attributes.map Attribute.name)) =
        some (.object, some ["owner"])
        by decide +kernel)
    obtain ⟨hobject, hbuilt⟩ := Prod.mk.inj hfound
    obtain ⟨attributes, hattributes, -⟩ := exists_ok_of_toOption_map_eq_some hbuilt
    have hall := (attributes_eq_error_iff_firstFailure hroot (.here root) hobject none
      (b := { flavor := .resource }) rfl rfl).2
    rw [Node.describedBy_none] at hall
    exact ⟨root, hroot, hall.mp ⟨attributes, hattributes⟩⟩

end Builder

end ProviderSchema
