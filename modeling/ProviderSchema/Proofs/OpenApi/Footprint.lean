import ProviderSchema.Proofs.OpenApi.Expansion
import ProviderSchema.Proofs.OpenApi.Mentions
import ProviderSchema.Proofs.OpenApi.ReplacedReferences

/-!
# What inlining depends on

A path item with its references inlined depends on the components that its
references lead to and on nothing else.  `Components.AgreesOn` says that other
components have the same entries under all names that count; the lemmas go from
schemas through parameters, bodies and operations up to
`AgreesOn.inlinedPathItem_eq`.

`Description.AgreesOn` says that another description has the same path items
and the same components as far as some paths lead to them, and
`AgreesOn.get?_paths_inlined_eq` that inlining then does the same to these
paths.  `restrictedTo` is the least such description: all other paths and
components are left out.
-/

namespace ProviderSchema.OpenApi

/-! ## Schemas -/

namespace Schema

variable {schemas schemas' : List (String × Schema)}

theorem substituteChildren_congr {f g : String → Schema} {c : Children Schema}
    (h : ∀ s, c.Holds s → s.substitute f = s.substitute g) :
    substituteChildren f c = substituteChildren g c :=
  substituteChildren_congr_outsideTuples fun s hs =>
    h s (Children.holds_of_mem_outsideTuples hs)

/-- A schema is inlined alike if the component schemas that it leads to are the
same. -/
theorem inlinedBelow_congr {needed : String → Prop}
    (hget : ∀ name, needed name → Table.get? schemas' name = Table.get? schemas name)
    (hclosed : ∀ name other, needed name → Refers schemas name other → needed other)
    (visited : List String) (s : Schema)
    (hs : ∀ name, s.Mentions (Reference.text "schemas" name) → needed name) :
    s.inlinedBelow schemas' visited = s.inlinedBelow schemas visited := by
  have hlookup (target : String) (h : ∀ name,
      Mentions (Reference.text "schemas" name) (.reference target) → needed name) :
      lookup schemas' target = lookup schemas target := by
    refine Reference.lookup_congr (by decide) fun name hname => hget name (h name ?_)
    rw [hname]
    exact .reference
  induction visited, s using inductionOnInlining schemas with
  | visited visited target hmem => rw [inlinedBelow_of_mem hmem, inlinedBelow_of_mem hmem]
  | unknown visited target e he =>
    rw [inlinedBelow_of_lookup_eq_error he,
      inlinedBelow_of_lookup_eq_error ((hlookup target hs).trans he)]
  | expanded visited target name s hnew hfound ih =>
    rw [inlinedBelow_of_lookup_eq_ok hfound hnew,
      inlinedBelow_of_lookup_eq_ok ((hlookup target hs).trans hfound) hnew, ih]
    -- The target counts, and with it what it refers to.
    intro other hmention
    obtain ⟨htarget, hs'⟩ := (Reference.lookup_eq_ok_iff (by decide)).mp hfound
    refine hclosed name other (hs name ?_) ⟨s, hs', hmention⟩
    rw [htarget]
    exact .reference
  | inline visited keywords c ih =>
    rw [inlinedBelow_inline, inlinedBelow_inline]
    congr 1
    refine substituteChildren_congr fun s hheld => ih s hheld ?_
    exact fun name hmention => hs name (.inline hheld hmention)

end Schema

/-! ## Components -/

/-- Components have the same entries under all names that count. -/
structure Components.AgreesOn (c : Components) (needed : Section → String → Prop)
    (c' : Components) : Prop where
  schemas : ∀ name, needed .schemas name →
    Table.get? c'.schemas name = Table.get? c.schemas name
  responses : ∀ name, needed .responses name →
    Table.get? c'.responses name = Table.get? c.responses name
  parameters : ∀ name, needed .parameters name →
    Table.get? c'.parameters name = Table.get? c.parameters name
  requestBodies : ∀ name, needed .requestBodies name →
    Table.get? c'.requestBodies name = Table.get? c.requestBodies name

/-- With a component all those count that its references lead to. -/
def Components.Closed (c : Components) (needed : Section → String → Prop) : Prop :=
  ∀ from_ section_ other name, needed from_ other →
    c.Mentions (Reference.text section_.text name) from_ other → needed section_ name

theorem Section.slash_notMem_text (section_ : Section) : '/' ∉ section_.text.toList := by
  cases section_ <;> decide

/-- A thing that may be a reference is inlined alike if the reference is looked
up alike and if what it is, or stands for, is inlined alike. -/
theorem OrReference.inlined_congr {α : Type} (section_ : Section)
    {table table' : List (String × OrReference α)} {inline inline' : α → α}
    {inside : String → α → Prop} {node : OrReference α} {needed : Section → String → Prop}
    (hget : ∀ name, needed section_ name → Table.get? table' name = Table.get? table name)
    (hinside : ∀ value, (∀ section_ name, inside (Reference.text section_.text name) value →
      needed section_ name) → inline' value = inline value)
    (hclosed : ∀ name entry section_' other, needed section_ name →
      Table.get? table name = some entry →
        entry.Mentions (inside (Reference.text section_'.text other))
          (Reference.text section_'.text other) → needed section_' other)
    (hnode : ∀ section_ name, node.Mentions (inside (Reference.text section_.text name))
      (Reference.text section_.text name) → needed section_ name) :
    node.inlined section_.text table' inline' = node.inlined section_.text table inline := by
  cases node with
  | inline value =>
    unfold OrReference.inlined
    dsimp only
    rw [hinside value hnode]
  | reference target =>
    have hlookup : Reference.lookup section_.text table' target =
        Reference.lookup section_.text table target := by
      refine Reference.lookup_congr section_.slash_notMem_text fun name hname => ?_
      exact hget name (hnode section_ name hname)
    unfold OrReference.inlined Reference.lookupInline
    dsimp only
    rw [hlookup]
    cases hfound : Reference.lookup section_.text table target with
    | error e => rfl
    | ok entry =>
      obtain ⟨name, other | value⟩ := entry
      · rfl
      · obtain ⟨htarget, hentry⟩ :=
          (Reference.lookup_eq_ok_iff section_.slash_notMem_text).mp hfound
        dsimp only
        rw [hinside value]
        exact fun section_' other h =>
          hclosed name (.inline value) section_' other (hnode section_ name htarget) hentry h

namespace Components

variable {c c' : Components} {needed : Section → String → Prop}

/-- A schema is inlined alike. -/
theorem AgreesOn.inlined_eq (h : c.AgreesOn needed c') (hclosed : c.Closed needed) {s : Schema}
    (hs : ∀ section_ name, s.Mentions (Reference.text section_.text name) → needed section_ name) :
    s.inlined c'.schemas = s.inlined c.schemas := by
  refine Schema.inlinedBelow_congr h.schemas ?_ [] s (hs .schemas)
  exact fun name other hneeded hrefers => hclosed .schemas .schemas name other hneeded hrefers

theorem AgreesOn.map_inlined_eq (h : c.AgreesOn needed c') (hclosed : c.Closed needed)
    {schema : Option Schema}
    (hschema : ∀ section_ name s, schema = some s →
      s.Mentions (Reference.text section_.text name) → needed section_ name) :
    schema.map (Schema.inlined c'.schemas) = schema.map (Schema.inlined c.schemas) := by
  cases schema with
  | none => rw [Option.map_none, Option.map_none]
  | some s =>
    rw [Option.map_some, Option.map_some,
      h.inlined_eq hclosed fun section_ name => hschema section_ name s rfl]

theorem AgreesOn.mapContent_eq (h : c.AgreesOn needed c') (hclosed : c.Closed needed)
    {content : List (String × MediaType)}
    (hcontent : ∀ section_ name, contentMentions (Reference.text section_.text name) content →
      needed section_ name) :
    mapContent (Schema.inlined c'.schemas) content =
      mapContent (Schema.inlined c.schemas) content := by
  unfold mapContent
  refine List.map_congr_left fun entry hentry => ?_
  obtain ⟨name, media⟩ := entry
  dsimp only
  rw [h.map_inlined_eq hclosed]
  exact fun section_ other s hs hmention =>
    hcontent section_ other ⟨(name, media), hentry, s, hs, hmention⟩

theorem AgreesOn.inlinedParameter_eq (h : c.AgreesOn needed c') (hclosed : c.Closed needed)
    {p : OrReference Parameter}
    (hp : ∀ section_ name, p.Mentions (Parameter.Mentions (Reference.text section_.text name))
      (Reference.text section_.text name) → needed section_ name) :
    c'.inlinedParameter p = c.inlinedParameter p := by
  refine OrReference.inlined_congr .parameters h.parameters ?_ ?_ hp
  · intro value hvalue
    rw [h.map_inlined_eq hclosed fun section_ name s hs hmention =>
      hvalue section_ name ⟨s, hs, hmention⟩]
  · intro name entry section_ other hneeded hentry hmention
    exact hclosed .parameters section_ name other hneeded ⟨entry, hentry, hmention⟩

theorem AgreesOn.inlinedBody_eq (h : c.AgreesOn needed c') (hclosed : c.Closed needed)
    {b : OrReference RequestBody}
    (hb : ∀ section_ name, b.Mentions (RequestBody.Mentions (Reference.text section_.text name))
      (Reference.text section_.text name) → needed section_ name) :
    c'.inlinedBody b = c.inlinedBody b := by
  refine OrReference.inlined_congr .requestBodies h.requestBodies ?_ ?_ hb
  · intro value hvalue
    rw [h.mapContent_eq hclosed hvalue]
  · intro name entry section_ other hneeded hentry hmention
    exact hclosed .requestBodies section_ name other hneeded ⟨entry, hentry, hmention⟩

theorem AgreesOn.inlinedResponse_eq (h : c.AgreesOn needed c') (hclosed : c.Closed needed)
    {r : OrReference Response}
    (hr : ∀ section_ name, r.Mentions (Response.Mentions (Reference.text section_.text name))
      (Reference.text section_.text name) → needed section_ name) :
    c'.inlinedResponse r = c.inlinedResponse r := by
  refine OrReference.inlined_congr .responses h.responses ?_ ?_ hr
  · intro value hvalue
    rw [h.mapContent_eq hclosed hvalue]
  · intro name entry section_ other hneeded hentry hmention
    exact hclosed .responses section_ name other hneeded ⟨entry, hentry, hmention⟩

theorem AgreesOn.inlinedOperation_eq (h : c.AgreesOn needed c') (hclosed : c.Closed needed)
    {o : Operation}
    (ho : ∀ section_ name, o.Mentions (Reference.text section_.text name) →
      needed section_ name) :
    c'.inlinedOperation o = c.inlinedOperation o := by
  have hparameters : o.parameters.map c'.inlinedParameter =
      o.parameters.map c.inlinedParameter := by
    refine List.map_congr_left fun p hp => h.inlinedParameter_eq hclosed ?_
    exact fun section_ name hmention => ho section_ name (.inl ⟨p, hp, hmention⟩)
  have hbody : o.requestBody.map c'.inlinedBody = o.requestBody.map c.inlinedBody := by
    cases hb : o.requestBody with
    | none => rw [Option.map_none, Option.map_none]
    | some b =>
      rw [Option.map_some, Option.map_some, h.inlinedBody_eq hclosed]
      exact fun section_ name hmention => ho section_ name (.inr (.inl ⟨b, hb, hmention⟩))
  unfold inlinedOperation
  rw [hparameters, hbody]
  congr 1
  refine List.map_congr_left fun entry hentry => ?_
  obtain ⟨status, r⟩ := entry
  dsimp only
  rw [h.inlinedResponse_eq hclosed]
  exact fun section_ name hmention => ho section_ name (.inr (.inr ⟨_, hentry, hmention⟩))

theorem operation?_inlinedPathItem (c : Components) (item : PathItem) (method : Method) :
    (c.inlinedPathItem item).operation? method =
      (item.operation? method).map c.inlinedOperation := by
  cases method <;> rfl

/-- A path item is inlined alike if all references that stand in it lead to
components that count. -/
theorem AgreesOn.inlinedPathItem_eq (h : c.AgreesOn needed c') (hclosed : c.Closed needed)
    {item : PathItem}
    (hitem : ∀ section_ name, item.Mentions (Reference.text section_.text name) →
      needed section_ name) :
    c'.inlinedPathItem item = c.inlinedPathItem item := by
  have hparameters : item.parameters.map c'.inlinedParameter =
      item.parameters.map c.inlinedParameter := by
    refine List.map_congr_left fun p hp => h.inlinedParameter_eq hclosed ?_
    exact fun section_ name hmention => hitem section_ name (.inl ⟨p, hp, hmention⟩)
  have hoperation (method : Method) : (item.operation? method).map c'.inlinedOperation =
      (item.operation? method).map c.inlinedOperation := by
    cases ho : item.operation? method with
    | none => rw [Option.map_none, Option.map_none]
    | some o =>
      rw [Option.map_some, Option.map_some, h.inlinedOperation_eq hclosed]
      exact fun section_ name hmention => hitem section_ name (.inr ⟨method, o, ho, hmention⟩)
  unfold inlinedPathItem
  rw [hparameters]
  congr 1
  exacts [hoperation .get, hoperation .post, hoperation .put, hoperation .delete,
    hoperation .patch, hoperation .options, hoperation .head, hoperation .trace]

end Components

/-! ## Descriptions -/

namespace Description

variable {d d' : Description} {paths : List String}

/-- A description has the same path items under some paths, and the same
components wherever references lead to from there. -/
structure AgreesOn (d : Description) (scope : List String) (d' : Description) : Prop where
  paths : ∀ path ∈ scope, Table.get? d'.paths path = Table.get? d.paths path
  components : (d.components.getD {}).AgreesOn (d.Needs scope) (d'.components.getD {})

theorem get?_paths_inlined (d : Description) (path : String) :
    Table.get? d.inlined.paths path =
      (Table.get? d.paths path).map (d.components.getD {}).inlinedPathItem :=
  Table.get?_map _ _ _

/-- Inlining does the same to the paths on which descriptions agree. -/
theorem AgreesOn.get?_paths_inlined_eq (h : d.AgreesOn paths d') {path : String}
    (hpath : path ∈ paths) :
    Table.get? d'.inlined.paths path = Table.get? d.inlined.paths path := by
  rw [get?_paths_inlined, get?_paths_inlined, h.paths path hpath]
  cases hitem : Table.get? d.paths path with
  | none => rw [Option.map_none, Option.map_none]
  | some item =>
    rw [Option.map_some, Option.map_some, h.components.inlinedPathItem_eq]
    · exact fun from_ section_ other name hneeded hmention => hneeded.ofComponent hmention
    · exact fun section_ name hmention => .ofPath hpath hitem hmention

/-! ## The least description that agrees -/

open Classical in
/-- The entries of a section that references lead to. -/
noncomputable def neededEntries {α : Type} (d : Description) (paths : List String)
    (section_ : Section) (table : List (String × α)) : List (String × α) :=
  table.filter fun entry => d.Needs paths section_ entry.1

/-- The description without all other paths, and without the components that
no reference leads to from these paths. -/
noncomputable def restrictedTo (d : Description) (paths : List String) : Description :=
  { d with
    paths := d.paths.filter fun entry => entry.1 ∈ paths
    components := d.components.map fun c => {
      schemas := d.neededEntries paths .schemas c.schemas
      responses := d.neededEntries paths .responses c.responses
      parameters := d.neededEntries paths .parameters c.parameters
      requestBodies := d.neededEntries paths .requestBodies c.requestBodies } }

theorem get?_neededEntries {α : Type} {section_ : Section} {name : String}
    (h : d.Needs paths section_ name) (table : List (String × α)) :
    Table.get? (d.neededEntries paths section_ table) name = Table.get? table name :=
  Table.get?_filter (by simpa using h) table

/-- Nothing that counts is left out. -/
theorem agreesOn_restrictedTo (d : Description) (paths : List String) :
    d.AgreesOn paths (d.restrictedTo paths) := by
  refine ⟨fun path hpath => Table.get?_filter (by simpa using hpath) d.paths, ?_⟩
  have hnone : (Components.mk [] [] [] []).AgreesOn (d.Needs paths) (Components.mk [] [] [] []) :=
    ⟨fun _ _ => rfl, fun _ _ => rfl, fun _ _ => rfl, fun _ _ => rfl⟩
  unfold restrictedTo
  cases d.components with
  | none => exact hnone
  | some c =>
    exact ⟨fun name h => get?_neededEntries h _, fun name h => get?_neededEntries h _,
      fun name h => get?_neededEntries h _, fun name h => get?_neededEntries h _⟩

end Description

end ProviderSchema.OpenApi
