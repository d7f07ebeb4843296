import ProviderSchema.Proofs.Document.Rearranged
import ProviderSchema.Proofs.OpenApi.Footprint

/-!
# Descriptions in another order

`Description.Rearranged` says that two descriptions differ in nothing but the
order in which the entries of their tables are written: the paths, the
components, the media types of bodies, the responses of operations and the
properties of schemas, at any depth.  Lists stay as they are, apart from what
is inside their members.

Inlining references keeps descriptions alike (`Description.Rearranged.inlined`):
a reference leads to the entry of a name, wherever it stands, and what it is
replaced with is alike again.
-/

namespace ProviderSchema.OpenApi

open Table (Rearranged)

/-! ## Schemas -/

/-- Children are in the same places, but for the order of the properties. -/
structure Children.SamePlaces {α : Type} (c c' : Children α) : Prop where
  names : (c.properties.map (·.1)).Perm (c'.properties.map (·.1))
  distinct : (c.properties.map (·.1)).Nodup
  others : { c.shape with properties := [] } = { c'.shape with properties := [] }

/-- Schemas are the same but for the order of properties. -/
inductive Schema.Rearranged : Schema → Schema → Prop where
  | reference (target : String) : Rearranged (.reference target) (.reference target)
  | inline (keywords : Keywords) {c c' : Children Schema} (places : c.SamePlaces c')
      (each : ∀ step s s', c.child? step = some s → c'.child? step = some s' → Rearranged s s') :
      Rearranged (.inline keywords c) (.inline keywords c')

theorem Children.map_fst_shape {α : Type} (c : Children α) :
    c.shape.properties.map (·.1) = c.properties.map (·.1) := by
  simp [shape, Function.comp_def]

/-- Places are a matter of the shape. -/
theorem Children.SamePlaces.of_shape_eq {α : Type} {c c' d d' : Children α}
    (h : c.SamePlaces c') (hd : d.shape = c.shape) (hd' : d'.shape = c'.shape) :
    d.SamePlaces d' := by
  refine ⟨?_, ?_, by rw [hd, hd', h.others]⟩
  · rw [← map_fst_shape d, ← map_fst_shape d', hd, hd', map_fst_shape, map_fst_shape]
    exact h.names
  · rw [← map_fst_shape d, hd, map_fst_shape]
    exact h.distinct

namespace Schema.Rearranged

theorem copiedFrom {s s' : Schema} (h : s.Rearranged s') (name : String) :
    (s.copiedFrom name).Rearranged (s'.copiedFrom name) := by
  cases h with
  | reference target => exact .reference target
  | inline keywords places each => exact .inline _ places each

variable {schemas schemas' : List (String × Schema)}

/-- A reference without a target has none in another order. -/
theorem lookup_eq_error (h : Table.Rearranged Schema.Rearranged schemas schemas')
    {target : String} {e : ReferenceError} (he : lookup schemas target = .error e) :
    lookup schemas' target = .error e := by
  unfold lookup Reference.lookup at he ⊢
  cases hname : Reference.name "schemas" target with
  | error e' =>
    rw [hname] at he
    exact he
  | ok name =>
    rw [hname] at he
    dsimp only at he ⊢
    have hrel := h.rel_get? name
    generalize Table.get? schemas name = a at he hrel
    generalize Table.get? schemas' name = b at hrel ⊢
    cases hrel with
    | none => exact he
    | some _ => cases he

/-- A reference with a target leads to the same schema in another order. -/
theorem lookup_eq_ok (h : Table.Rearranged Schema.Rearranged schemas schemas')
    {target name : String} {s : Schema} (hs : lookup schemas target = .ok (name, s)) :
    ∃ s', lookup schemas' target = .ok (name, s') ∧ s.Rearranged s' := by
  obtain ⟨htarget, hget⟩ := (Reference.lookup_eq_ok_iff (by decide)).mp hs
  have hsome := h.rel_get? name
  rw [hget] at hsome
  generalize hget' : Table.get? schemas' name = found at hsome
  cases hsome with
  | some hrel => exact ⟨_, (Reference.lookup_eq_ok_iff (by decide)).mpr ⟨htarget, hget'⟩, hrel⟩

/-- Inlining keeps schemas alike, while the same references are being
expanded. -/
theorem inlinedBelow (h : Table.Rearranged Schema.Rearranged schemas schemas')
    (visited : List String) {s s' : Schema} (hs : s.Rearranged s') :
    (s.inlinedBelow schemas visited).Rearranged (s'.inlinedBelow schemas' visited) := by
  induction visited, s using inductionOnInlining schemas generalizing s' with
  | visited visited target hmem =>
    cases hs
    rw [inlinedBelow_of_mem hmem, inlinedBelow_of_mem hmem]
    exact .reference target
  | unknown visited target e he =>
    cases hs
    rw [inlinedBelow_of_lookup_eq_error he, inlinedBelow_of_lookup_eq_error (lookup_eq_error h he)]
    exact .reference target
  | expanded visited target name s hnew hfound ih =>
    cases hs
    obtain ⟨s', hfound', hs⟩ := lookup_eq_ok h hfound
    rw [inlinedBelow_of_lookup_eq_ok hfound hnew, inlinedBelow_of_lookup_eq_ok hfound' hnew]
    exact (ih hs).copiedFrom name
  | inline visited keywords c ih =>
    cases hs with
    | @inline _ _ c' places each =>
      rw [inlinedBelow_inline, inlinedBelow_inline]
      refine .inline keywords (places.of_shape_eq (shape_substituteChildren _ _)
        (shape_substituteChildren _ _)) ?_
      intro step s s' hs hs'
      rw [child?_substituteChildren] at hs hs'
      split at hs
      · rw [if_pos ‹_›] at hs'
        exact each step s s' hs hs'
      · rw [if_neg ‹_›] at hs'
        obtain ⟨t, ht, rfl⟩ := Option.map_eq_some_iff.mp hs
        obtain ⟨t', ht', rfl⟩ := Option.map_eq_some_iff.mp hs'
        exact ih t (c.holds_of_child?_eq_some ht) (each step t t' ht ht')

theorem inlined (h : Table.Rearranged Schema.Rearranged schemas schemas') {s s' : Schema}
    (hs : s.Rearranged s') : (s.inlined schemas).Rearranged (s'.inlined schemas') :=
  inlinedBelow h [] hs

end Schema.Rearranged

/-! ## Bodies and parameters -/

/-- Media types with schemas that are alike. -/
structure MediaType.Rearranged (m m' : MediaType) : Prop where
  schema : Option.Rel Schema.Rearranged m.schema m'.schema
  sample : m.sample = m'.sample

/-- Both are the same reference, or things that are alike. -/
inductive OrReference.Related {α : Type} (R : α → α → Prop) :
    OrReference α → OrReference α → Prop where
  | reference (target : String) : Related R (.reference target) (.reference target)
  | inline {a a' : α} (h : R a a') : Related R (.inline a) (.inline a')

/-- Parameters that differ in the order of tables in their schemas only. -/
structure Parameter.Rearranged (p p' : Parameter) : Prop where
  schema : Option.Rel Schema.Rearranged p.schema p'.schema
  others : { p with schema := none } = { p' with schema := none }

/-- Request bodies that differ in the order of media types and within them only. -/
structure RequestBody.Rearranged (b b' : RequestBody) : Prop where
  content : Table.Rearranged MediaType.Rearranged b.content b'.content
  others : { b with content := [] } = { b' with content := [] }

/-- Responses that differ in the order of media types and within them only. -/
structure Response.Rearranged (r r' : Response) : Prop where
  content : Table.Rearranged MediaType.Rearranged r.content r'.content
  others : { r with content := [] } = { r' with content := [] }

/-! ## Operations, paths and components -/

/-- Operations that differ in the order of responses, and in parts that are alike.  The
order of parameters is the same. -/
structure Operation.Rearranged (o o' : Operation) : Prop where
  parameters : List.Forall₂ (OrReference.Related Parameter.Rearranged) o.parameters o'.parameters
  requestBody : Option.Rel (OrReference.Related RequestBody.Rearranged) o.requestBody
    o'.requestBody
  responses : Table.Rearranged (OrReference.Related Response.Rearranged) o.responses o'.responses
  others : { o with parameters := [], requestBody := none, responses := [] } =
    { o' with parameters := [], requestBody := none, responses := [] }

/-- Paths with the same operations, each pair of them alike. -/
structure PathItem.Rearranged (item item' : PathItem) : Prop where
  parameters : List.Forall₂ (OrReference.Related Parameter.Rearranged) item.parameters
    item'.parameters
  operation : ∀ method, Option.Rel Operation.Rearranged (item.operation? method)
    (item'.operation? method)
  others : item.summary = item'.summary ∧ item.description = item'.description

/-- Components that differ in the order of their tables, and in entries that are alike. -/
structure Components.Rearranged (c c' : Components) : Prop where
  schemas : Table.Rearranged Schema.Rearranged c.schemas c'.schemas
  responses : Table.Rearranged (OrReference.Related Response.Rearranged) c.responses c'.responses
  parameters : Table.Rearranged (OrReference.Related Parameter.Rearranged) c.parameters
    c'.parameters
  requestBodies : Table.Rearranged (OrReference.Related RequestBody.Rearranged) c.requestBodies
    c'.requestBodies

/-- Descriptions are the same but for the order in the tables. -/
structure Description.Rearranged (d d' : Description) : Prop where
  paths : Table.Rearranged PathItem.Rearranged d.paths d'.paths
  components : Option.Rel Components.Rearranged d.components d'.components
  others : { d with paths := [], components := none } = { d' with paths := [], components := none }

/-! ## Inlining -/

theorem mapContent_rearranged {f f' : Schema → Schema}
    (hf : ∀ s s', s.Rearranged s' → (f s).Rearranged (f' s'))
    {content content' : List (String × MediaType)}
    (h : Table.Rearranged MediaType.Rearranged content content') :
    Table.Rearranged MediaType.Rearranged (mapContent f content) (mapContent f' content') := by
  have hmedia (_ : String) (m m' : MediaType) (hm : m.Rearranged m') : MediaType.Rearranged
      { m with schema := m.schema.map f } { m' with schema := m'.schema.map f' } :=
    ⟨rel_map hf hm.schema, hm.sample⟩
  exact h.map hmedia

/-- A reference to an entry is replaced by things that are alike. -/
theorem OrReference.Related.inlined {α : Type} {R : α → α → Prop}
    {table table' : List (String × OrReference α)} {f f' : α → α} {node node' : OrReference α}
    (h : Related R node node') (section_ : String)
    (htable : Table.Rearranged (Related R) table table') (hf : ∀ a a', R a a' → R (f a) (f' a')) :
    Related R (node.inlined section_ table f) (node'.inlined section_ table' f') := by
  cases h with
  | inline h => exact .inline (hf _ _ h)
  | reference target =>
    unfold OrReference.inlined Reference.lookupInline Reference.lookup
    dsimp only
    cases Reference.name section_ target with
    | error e => exact .reference target
    | ok name =>
      dsimp only
      have hrel := htable.rel_get? name
      generalize Table.get? table name = entry at hrel ⊢
      generalize Table.get? table' name = entry' at hrel ⊢
      cases hrel with
      | none => exact .reference target
      | some h =>
        cases h with
        | reference other => exact .reference target
        | inline h => exact .inline (hf _ _ h)

namespace Components.Rearranged

variable {c c' : Components}

theorem empty : Components.Rearranged {} {} := by
  constructor <;> exact Table.rearranged_nil _

theorem inlinedParameter (h : c.Rearranged c') {p p' : OrReference Parameter}
    (hp : p.Related Parameter.Rearranged p') :
    (c.inlinedParameter p).Related Parameter.Rearranged (c'.inlinedParameter p') := by
  refine hp.inlined "parameters" h.parameters fun p p' hp => ⟨?_, hp.others⟩
  exact rel_map (fun s s' hs => hs.inlined h.schemas) hp.schema

theorem inlinedBody (h : c.Rearranged c') {b b' : OrReference RequestBody}
    (hb : b.Related RequestBody.Rearranged b') :
    (c.inlinedBody b).Related RequestBody.Rearranged (c'.inlinedBody b') := by
  refine hb.inlined "requestBodies" h.requestBodies fun b b' hb => ⟨?_, hb.others⟩
  exact mapContent_rearranged (fun s s' hs => hs.inlined h.schemas) hb.content

theorem inlinedResponse (h : c.Rearranged c') {r r' : OrReference Response}
    (hr : r.Related Response.Rearranged r') :
    (c.inlinedResponse r).Related Response.Rearranged (c'.inlinedResponse r') := by
  refine hr.inlined "responses" h.responses fun r r' hr => ⟨?_, hr.others⟩
  exact mapContent_rearranged (fun s s' hs => hs.inlined h.schemas) hr.content

theorem map_inlinedParameter (h : c.Rearranged c') {ps ps' : List (OrReference Parameter)}
    (hps : List.Forall₂ (OrReference.Related Parameter.Rearranged) ps ps') :
    List.Forall₂ (OrReference.Related Parameter.Rearranged) (ps.map c.inlinedParameter)
      (ps'.map c'.inlinedParameter) := by
  rw [List.forall₂_map_left_iff, List.forall₂_map_right_iff]
  exact hps.imp fun p p' hp => h.inlinedParameter hp

theorem inlinedOperation (h : c.Rearranged c') {o o' : Operation} (ho : o.Rearranged o') :
    (c.inlinedOperation o).Rearranged (c'.inlinedOperation o') where
  parameters := h.map_inlinedParameter ho.parameters
  requestBody := rel_map (fun _ _ hb => h.inlinedBody hb) ho.requestBody
  responses := ho.responses.map fun _ _ _ hr => h.inlinedResponse hr
  others := ho.others

theorem inlinedPathItem (h : c.Rearranged c') {item item' : PathItem}
    (hitem : item.Rearranged item') :
    (c.inlinedPathItem item).Rearranged (c'.inlinedPathItem item') where
  parameters := h.map_inlinedParameter hitem.parameters
  operation := by
    intro method
    rw [operation?_inlinedPathItem, operation?_inlinedPathItem]
    exact rel_map (fun o o' ho => h.inlinedOperation ho) (hitem.operation method)
  others := hitem.others

theorem inlinedSchemas (h : c.Rearranged c') :
    Table.Rearranged Schema.Rearranged c.inlinedSchemas c'.inlinedSchemas :=
  h.schemas.map fun name _ _ hs => (hs.inlined h.schemas).copiedFrom name

end Components.Rearranged

/-- Inlining keeps descriptions alike. -/
theorem Description.Rearranged.inlined {d d' : Description} (h : d.Rearranged d') :
    d.inlined.Rearranged d'.inlined where
  paths := by
    have hcomponents := rel_getD h.components Components.Rearranged.empty
    exact h.paths.map fun _ _ _ hitem => hcomponents.inlinedPathItem hitem
  components := by
    refine rel_map (fun c c' hc => ?_) h.components
    exact ⟨hc.inlinedSchemas, hc.responses, hc.parameters, hc.requestBodies⟩
  others := h.others

/-- The component schemas are alike. -/
theorem Description.Rearranged.rel_get?_schemas {d d' : Description} (h : d.Rearranged d')
    (name : String) :
    Option.Rel Schema.Rearranged (Table.get? d.schemas name) (Table.get? d'.schemas name) := by
  have hcomponents := h.components
  unfold Description.schemas
  generalize d.components = c at hcomponents ⊢
  generalize d'.components = c' at hcomponents ⊢
  cases hcomponents with
  | none => exact .none
  | some hc => exact hc.schemas.rel_get? name

end ProviderSchema.OpenApi
