import ProviderSchema.Proofs.OpenApi.Copies
import ProviderSchema.Proofs.OpenApi.ReplacedReferences

/-!
# Inlining what is inlined

`Schema.Follows` is the graph of the references among component schemas that
inlining follows.  If no component leads back to itself in it, a reference is
never met while its own target is being put in place: the references that are
being expanded make no difference (`inlinedBelow_eq_of_fresh`), and what is left
are references without a target (`lookup_eq_error_of_mem_references`).

So inlining an inlined description changes nothing, every reference that has a
target is gone, and the reference to a component stands for what the component
became, with the name of the component that it is a copy of
(`Description.inlinesFully_of_acyclic`).
-/

namespace ProviderSchema.OpenApi

/-! ## Component schemas without cycles -/

namespace Schema

/-- A component schema has a reference to another one that inlining replaces. -/
def Follows (schemas : List (String × Schema)) (name other : String) : Prop :=
  ∃ s, Table.get? schemas name = some s ∧ Reference.text "schemas" other ∈ s.references

/-- No component schema leads to itself. -/
def Acyclic (schemas : List (String × Schema)) : Prop :=
  ∀ name, ¬ Relation.TransGen (Follows schemas) name name

/-- There is no cycle if every reference leads down. -/
theorem acyclic_of_lt {schemas : List (String × Schema)} (rank : String → Nat)
    (h : ∀ entry ∈ schemas, ∀ target ∈ entry.2.references,
      rank target < rank (Reference.text "schemas" entry.1)) : Acyclic schemas := by
  have hdown : ∀ {name other : String}, Relation.TransGen (Follows schemas) name other →
      rank (Reference.text "schemas" other) < rank (Reference.text "schemas" name) := by
    intro name other hleads
    induction hleads with
    | single hfollows =>
      obtain ⟨s, hget, hmem⟩ := hfollows
      exact h (name, s) (Table.mem_of_get?_eq_some hget) _ hmem
    | tail _ hfollows ih =>
      obtain ⟨s, hget, hmem⟩ := hfollows
      exact (h _ (Table.mem_of_get?_eq_some hget) _ hmem).trans ih
  intro name hcycle
  exact absurd (hdown hcycle) (Nat.lt_irrefl _)

variable {schemas : List (String × Schema)}

/-- A reference leads to none of those that are being expanded. -/
def Fresh (schemas : List (String × Schema)) (visited : List String) (target : String) : Prop :=
  ∀ name other, target = Reference.text "schemas" name →
    Reference.text "schemas" other ∈ visited →
      ¬ Relation.ReflTransGen (Follows schemas) name other

theorem fresh_nil (target : String) : Fresh schemas [] target := by
  intro name other _ hmem
  cases hmem

/-- The references of a component are fresh while the component is expanded, if
a reference to it was. -/
theorem Fresh.of_mem_references (hacyclic : Acyclic schemas) {visited : List String}
    {target name : String} {s : Schema} (hlookup : lookup schemas target = .ok (name, s))
    (hfresh : Fresh schemas visited target) :
    ∀ other ∈ s.references, Fresh schemas (target :: visited) other := by
  obtain ⟨rfl, hget⟩ := (Reference.lookup_eq_ok_iff (by decide)).mp hlookup
  rintro _ hmem next found rfl hfound hleads
  have hfollows : Follows schemas name next := ⟨s, hget, hmem⟩
  rcases List.mem_cons.mp hfound with heq | hfound
  · -- The component would lead to itself.
    rw [Reference.text_inj] at heq
    subst heq
    exact hacyclic found (Relation.TransGen.head' hfollows hleads)
  · exact hfresh name found rfl hfound (hleads.head hfollows)

/-- What is being expanded is not met. -/
theorem lookup_eq_error_of_fresh_of_mem {visited : List String} {target : String}
    (hfresh : Fresh schemas visited target) (hmem : target ∈ visited) :
    ∃ e, lookup schemas target = .error e := by
  cases hlookup : lookup schemas target with
  | error e => exact ⟨e, rfl⟩
  | ok entry =>
    obtain ⟨htext, -⟩ := (Reference.lookup_eq_ok_iff (by decide)).mp hlookup
    exact absurd .refl (hfresh entry.1 entry.1 htext (htext ▸ hmem))

/-- Only references without a target are left. -/
theorem lookup_eq_error_of_mem_references (hacyclic : Acyclic schemas) (visited : List String)
    (s : Schema) (hfresh : ∀ target ∈ s.references, Fresh schemas visited target) :
    ∀ target ∈ (s.inlinedBelow schemas visited).references,
      ∃ e, lookup schemas target = .error e := by
  induction visited, s using inductionOnInlining schemas with
  | visited visited target hmem =>
    rw [inlinedBelow_of_mem hmem, references_reference, List.forall_mem_singleton]
    exact lookup_eq_error_of_fresh_of_mem (hfresh target (by simp)) hmem
  | unknown visited target e hlookup =>
    rw [inlinedBelow_of_lookup_eq_error hlookup, references_reference, List.forall_mem_singleton]
    exact ⟨e, hlookup⟩
  | expanded visited target name s hnew hlookup ih =>
    rw [inlinedBelow_of_lookup_eq_ok hlookup hnew, references_copiedFrom]
    exact ih ((hfresh target (by simp)).of_mem_references hacyclic hlookup)
  | inline visited keywords c ih =>
    rw [inlinedBelow_inline, references_inline, outsideTuples_substituteChildren]
    rw [references_inline] at hfresh
    intro target htarget
    obtain ⟨t, ht, htarget⟩ := List.mem_flatMap.mp htarget
    obtain ⟨s, hs, rfl⟩ := List.mem_map.mp ht
    refine ih s (Children.holds_of_mem_outsideTuples hs) ?_ target htarget
    exact fun other hother => hfresh other (List.mem_flatMap.mpr ⟨s, hs, hother⟩)

/-- Which references are being expanded makes no difference. -/
theorem inlinedBelow_eq_of_fresh (hacyclic : Acyclic schemas) (visited : List String)
    (s : Schema) {visited' : List String}
    (hfresh : ∀ target ∈ s.references, Fresh schemas visited target)
    (hfresh' : ∀ target ∈ s.references, Fresh schemas visited' target) :
    s.inlinedBelow schemas visited = s.inlinedBelow schemas visited' := by
  induction visited, s using inductionOnInlining schemas generalizing visited' with
  | visited visited target hmem =>
    obtain ⟨e, hlookup⟩ := lookup_eq_error_of_fresh_of_mem (hfresh target (by simp)) hmem
    rw [inlinedBelow_of_lookup_eq_error hlookup, inlinedBelow_of_lookup_eq_error hlookup]
  | unknown visited target e hlookup =>
    rw [inlinedBelow_of_lookup_eq_error hlookup, inlinedBelow_of_lookup_eq_error hlookup]
  | expanded visited target name s hnew hlookup ih =>
    have htarget := hfresh target (by simp)
    have htarget' := hfresh' target (by simp)
    have hnew' : target ∉ visited' := by
      intro hmem
      obtain ⟨e, he⟩ := lookup_eq_error_of_fresh_of_mem htarget' hmem
      rw [hlookup] at he
      cases he
    rw [inlinedBelow_of_lookup_eq_ok hlookup hnew, inlinedBelow_of_lookup_eq_ok hlookup hnew',
      ih (htarget.of_mem_references hacyclic hlookup)
        (htarget'.of_mem_references hacyclic hlookup)]
  | inline visited keywords c ih =>
    rw [references_inline] at hfresh hfresh'
    rw [inlinedBelow_inline, inlinedBelow_inline]
    congr 1
    refine substituteChildren_congr_outsideTuples fun s hs => ?_
    refine ih s (Children.holds_of_mem_outsideTuples hs) ?_ ?_
    · exact fun other hother => hfresh other (List.mem_flatMap.mpr ⟨s, hs, hother⟩)
    · exact fun other hother => hfresh' other (List.mem_flatMap.mpr ⟨s, hs, hother⟩)

/-- A schema whose references have no target stays as it is. -/
theorem inlinedBelow_eq_self {s : Schema}
    (h : ∀ target ∈ s.references, ∃ e, lookup schemas target = .error e) (visited : List String) :
    s.inlinedBelow schemas visited = s := by
  refine substitute_eq_self ?_
  intro target htarget
  obtain ⟨e, he⟩ := h target htarget
  have hleft := inlinedBelow_of_lookup_eq_error he visited
  rwa [inlinedBelow, substitute_reference] at hleft

end Schema

/-! ## The parts of a description -/

theorem OrReference.inlined_inlined {α : Type} {inline inline' : α → α}
    (h : ∀ a, inline' (inline a) = inline a) (section_ : String)
    (table : List (String × OrReference α)) (node : OrReference α) :
    (node.inlined section_ table inline).inlined section_ table inline' =
      node.inlined section_ table inline := by
  cases node with
  | inline value => exact congrArg OrReference.inline (h value)
  | reference target =>
    cases hlookup : Reference.lookupInline section_ table target with
    | error e => simp [OrReference.inlined, hlookup]
    | ok value => simp [OrReference.inlined, hlookup, h]

theorem mapContent_mapContent {f f' : Schema → Schema} (h : ∀ s, f' (f s) = f s)
    (content : List (String × MediaType)) :
    mapContent f' (mapContent f content) = mapContent f content := by
  simp [mapContent, Function.comp_def, h]

namespace Components

/-- What some components made of a thing, others leave as it is. -/
structure LeftBy (c c' : Components) : Prop where
  parameters : c'.parameters = c.parameters
  requestBodies : c'.requestBodies = c.requestBodies
  responses : c'.responses = c.responses
  schemas : ∀ s : Schema, (s.inlined c.schemas).inlined c'.schemas = s.inlined c.schemas

namespace LeftBy

variable {c c' : Components} (h : c.LeftBy c')
include h

theorem inlinedParameter (p : OrReference Parameter) :
    c'.inlinedParameter (c.inlinedParameter p) = c.inlinedParameter p := by
  unfold Components.inlinedParameter
  rw [h.parameters]
  refine OrReference.inlined_inlined ?_ _ _ p
  intro p
  simp [Function.comp_def, h.schemas]

theorem inlinedBody (b : OrReference RequestBody) :
    c'.inlinedBody (c.inlinedBody b) = c.inlinedBody b := by
  unfold Components.inlinedBody
  rw [h.requestBodies]
  refine OrReference.inlined_inlined ?_ _ _ b
  intro b
  simp [mapContent_mapContent h.schemas]

theorem inlinedResponse (r : OrReference Response) :
    c'.inlinedResponse (c.inlinedResponse r) = c.inlinedResponse r := by
  unfold Components.inlinedResponse
  rw [h.responses]
  refine OrReference.inlined_inlined ?_ _ _ r
  intro r
  simp [mapContent_mapContent h.schemas]

theorem inlinedOperation (o : Operation) :
    c'.inlinedOperation (c.inlinedOperation o) = c.inlinedOperation o := by
  simp [Components.inlinedOperation, Function.comp_def, h.inlinedParameter, h.inlinedBody,
    h.inlinedResponse]

theorem inlinedPathItem (item : PathItem) :
    c'.inlinedPathItem (c.inlinedPathItem item) = c.inlinedPathItem item := by
  simp [Components.inlinedPathItem, Function.comp_def, h.inlinedParameter, h.inlinedOperation]

end LeftBy

end Components

/-! ## Descriptions -/

namespace Description

variable {d : Description}

theorem get?_schemas_inlined (d : Description) (name : String) :
    Table.get? d.inlined.schemas name =
      (Table.get? d.schemas name).map fun s => (s.inlined d.schemas).copiedFrom name := by
  rw [schemas_inlined]
  exact Table.get?_mapEntries (fun name s => (s.inlined d.schemas).copiedFrom name) d.schemas name

/-- A reference that has no target has none when the description is inlined. -/
theorem lookup_schemas_inlined_eq_error {target : String}
    (h : ∃ e, Schema.lookup d.schemas target = .error e) :
    ∃ e, Schema.lookup d.inlined.schemas target = .error e := by
  obtain ⟨e, he⟩ := h
  cases hlookup : Schema.lookup d.inlined.schemas target with
  | error e' => exact ⟨e', rfl⟩
  | ok entry =>
    obtain ⟨htext, hget⟩ := (Reference.lookup_eq_ok_iff (by decide)).mp hlookup
    rw [get?_schemas_inlined] at hget
    obtain ⟨s, hs, -⟩ := Option.map_eq_some_iff.mp hget
    have hfound : Schema.lookup d.schemas target = .ok (entry.1, s) :=
      (Reference.lookup_eq_ok_iff (by decide)).mpr ⟨htext, hs⟩
    rw [he] at hfound
    cases hfound

/-- The description is inlined in full: its references stand for what the
components became, and there is nothing left to inline. -/
structure InlinesFully (d : Description) : Prop where
  /-- Inlining once more changes nothing. -/
  again : d.inlined.inlined = d.inlined
  /-- References that are left in the paths, outside tuples, have no target. -/
  paths : ∀ path item, (path, item) ∈ d.inlined.paths → ∀ s ∈ item.schemas,
    ∀ name, Reference.text "schemas" name ∈ s.references →
      Table.get? d.inlined.schemas name = none
  /-- So it is for those in component schemas. -/
  components : ∀ component s, (component, s) ∈ d.inlined.schemas →
    ∀ name, Reference.text "schemas" name ∈ s.references →
      Table.get? d.inlined.schemas name = none
  /-- The reference to a component stands for what the component became, before
  and after the description is inlined. -/
  entries : ∀ name s, Table.get? d.inlined.schemas name = some s →
    Schema.inlined d.schemas (.reference (Reference.text "schemas" name)) = s ∧
      Schema.inlined d.inlined.schemas (.reference (Reference.text "schemas" name)) = s

theorem get?_eq_none_of_lookup_eq_error {schemas : List (String × Schema)} {name : String}
    (h : ∃ e, Schema.lookup schemas (Reference.text "schemas" name) = .error e) :
    Table.get? schemas name = none := by
  obtain ⟨e, he⟩ := h
  cases hget : Table.get? schemas name with
  | none => rfl
  | some s =>
    have hfound : Schema.lookup schemas (Reference.text "schemas" name) = .ok (name, s) :=
      (Reference.lookup_eq_ok_iff (by decide)).mpr ⟨rfl, hget⟩
    rw [he] at hfound
    cases hfound

/-- Inlining changes nothing if it changes neither paths nor component
schemas. -/
theorem inlined_eq_self (hpaths : d.inlined.paths = d.paths)
    (hschemas : d.inlined.schemas = d.schemas) : d.inlined = d := by
  have hcomponents : d.inlined.components = d.components := by
    cases hc : d.components with
    | none => simp [inlined, hc]
    | some c =>
      have hentries : c.inlinedSchemas = c.schemas := by
        simpa [schemas, inlined, hc] using hschemas
      simp [inlined, hc, hentries]
  have heta : d.inlined = ⟨d.openapi, d.info, d.inlined.paths, d.inlined.components⟩ := rfl
  rw [heta, hpaths, hcomponents]

/-! ## Inlining in full -/

/-- The references that are left in an inlined schema have no target among the
inlined component schemas. -/
theorem lookup_eq_error_of_mem_references_inlined (h : Schema.Acyclic d.schemas) (s : Schema) :
    ∀ target ∈ (s.inlined d.schemas).references,
      ∃ e, Schema.lookup d.inlined.schemas target = .error e := by
  intro target htarget
  refine lookup_schemas_inlined_eq_error ?_
  exact Schema.lookup_eq_error_of_mem_references h [] s (fun t _ => Schema.fresh_nil t) target
    htarget

/-- There is nothing to inline in what a component schema became. -/
theorem inlinedBelow_copiedFrom_inlined (h : Schema.Acyclic d.schemas) (s : Schema) (name : String)
    (visited : List String) :
    ((s.inlined d.schemas).copiedFrom name).inlinedBelow d.inlined.schemas visited =
      (s.inlined d.schemas).copiedFrom name := by
  refine Schema.inlinedBelow_eq_self ?_ visited
  rw [Schema.references_copiedFrom]
  exact lookup_eq_error_of_mem_references_inlined h s

theorem paths_inlined_inlined (h : Schema.Acyclic d.schemas) :
    d.inlined.inlined.paths = d.inlined.paths := by
  have hleftBy : (d.components.getD {}).LeftBy (d.inlined.components.getD {}) := by
    have hagain : ∀ s : Schema, (s.inlined d.schemas).inlined d.inlined.schemas =
        s.inlined d.schemas := fun s =>
      Schema.inlinedBelow_eq_self (lookup_eq_error_of_mem_references_inlined h s) []
    rw [schemas_eq, schemas_eq] at hagain
    refine ⟨?_, ?_, ?_, hagain⟩ <;> (unfold inlined; cases d.components <;> rfl)
  change (d.paths.map _).map _ = d.paths.map _
  rw [List.map_map]
  refine List.map_congr_left fun entry _ => ?_
  exact Prod.ext rfl (hleftBy.inlinedPathItem entry.2)

theorem schemas_inlined_inlined (h : Schema.Acyclic d.schemas) :
    d.inlined.inlined.schemas = d.inlined.schemas := by
  rw [schemas_inlined d.inlined]
  refine (List.map_congr_left fun entry hentry => ?_).trans (List.map_id _)
  rw [schemas_inlined] at hentry
  obtain ⟨⟨name, s⟩, -, rfl⟩ := List.mem_map.mp hentry
  refine Prod.ext rfl ?_
  change (Schema.inlined d.inlined.schemas _).copiedFrom name = _
  rw [Schema.inlined_eq_inlinedBelow, inlinedBelow_copiedFrom_inlined h,
    Schema.copiedFrom_copiedFrom]
  rfl

/-- The reference to a component stands for what the component became. -/
theorem inlined_reference_eq (h : Schema.Acyclic d.schemas) {name : String} {s : Schema}
    (hs : Table.get? d.inlined.schemas name = some s) :
    Schema.inlined d.schemas (.reference (Reference.text "schemas" name)) = s ∧
      Schema.inlined d.inlined.schemas (.reference (Reference.text "schemas" name)) = s := by
  have hlookup' : Schema.lookup d.inlined.schemas (Reference.text "schemas" name) = .ok (name, s) :=
    (Reference.lookup_eq_ok_iff (by decide)).mpr ⟨rfl, hs⟩
  rw [get?_schemas_inlined] at hs
  obtain ⟨s', hs', rfl⟩ := Option.map_eq_some_iff.mp hs
  have hlookup : Schema.lookup d.schemas (Reference.text "schemas" name) = .ok (name, s') :=
    (Reference.lookup_eq_ok_iff (by decide)).mpr ⟨rfl, hs'⟩
  constructor
  · -- That the component is being expanded makes no difference to it.
    have hfresh := (Schema.fresh_nil (Reference.text "schemas" name)).of_mem_references h hlookup
    rw [Schema.inlined_eq_inlinedBelow,
      Schema.inlinedBelow_of_lookup_eq_ok hlookup List.not_mem_nil,
      Schema.inlinedBelow_eq_of_fresh h _ s' hfresh fun t _ => Schema.fresh_nil t]
    rfl
  · rw [Schema.inlined_eq_inlinedBelow,
      Schema.inlinedBelow_of_lookup_eq_ok hlookup' List.not_mem_nil,
      inlinedBelow_copiedFrom_inlined h, Schema.copiedFrom_copiedFrom]

/-- Without a cycle of references a description is inlined in full. -/
theorem inlinesFully_of_acyclic (h : Schema.Acyclic d.schemas) : d.InlinesFully := by
  refine ⟨inlined_eq_self (paths_inlined_inlined h) (schemas_inlined_inlined h), ?_, ?_,
    fun _ _ => inlined_reference_eq h⟩
  · intro path item hitem s hs name hname
    obtain ⟨⟨path', item'⟩, -, heq⟩ := List.mem_map.mp hitem
    cases heq
    obtain ⟨s', -, rfl⟩ := Components.inlines_pathItem item' s hs
    rw [← schemas_eq] at hname
    exact get?_eq_none_of_lookup_eq_error
      (lookup_eq_error_of_mem_references_inlined h s' _ hname)
  · intro component s hs name hname
    rw [schemas_inlined] at hs
    obtain ⟨⟨name', s'⟩, hs', heq⟩ := List.mem_map.mp hs
    cases heq
    rw [Schema.references_copiedFrom] at hname
    exact get?_eq_none_of_lookup_eq_error
      (lookup_eq_error_of_mem_references_inlined h s' _ hname)

/-- Dogs are pets; the kind of a pet is described nowhere. -/
def petDescription : Description where
  openapi := "3.0.0"
  info := { title := "Pets", version := "1" }
  paths := [("/dogs", { get := some { responses := [("200", .inline { content :=
    [("application/json", { schema := some (.reference "#/components/schemas/Dog") })] })] } })]
  components := some { schemas := [
    ("Dog", .reference "#/components/schemas/Pet"),
    ("Pet", .inline { type := some (.single .object) } { properties := [
      ("owner", .reference "#/components/schemas/Owner"),
      ("kind", .reference "#/components/schemas/Kind")] }),
    ("Owner", .inline { type := some (.single .object) } { properties := [
      ("name", .inline { type := some (.single .string) } {})] })] }

/-- The names of component schemas, with those of the components that they are
copies of and the references in them. -/
def remains (schemas : List (String × Schema)) : List (String × Option String × List String) :=
  schemas.map fun (name, s) =>
    match s with
    | .inline keywords _ => (name, keywords.origin, s.references)
    | .reference _ => (name, none, s.references)

/-- A dog is a copy of a pet, and only the reference to the kind is left. -/
theorem inlinesFully_petDescription :
    Schema.Acyclic petDescription.schemas ∧ petDescription.InlinesFully ∧
      remains petDescription.inlined.schemas =
        [("Dog", some "Pet", ["#/components/schemas/Kind"]),
          ("Pet", some "Pet", ["#/components/schemas/Kind"]), ("Owner", some "Owner", [])] := by
  have hacyclic : Schema.Acyclic petDescription.schemas :=
    Schema.acyclic_of_lt (fun target => ["#/components/schemas/Kind", "#/components/schemas/Owner",
      "#/components/schemas/Pet", "#/components/schemas/Dog"].idxOf target) (by decide +kernel)
  exact ⟨hacyclic, inlinesFully_of_acyclic hacyclic, by decide +kernel⟩

end Description

end ProviderSchema.OpenApi
