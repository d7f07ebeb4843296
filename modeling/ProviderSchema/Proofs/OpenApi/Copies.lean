import ProviderSchema.Proofs.Document.Rearranged
import ProviderSchema.Proofs.OpenApi.EntryReferences
import ProviderSchema.Proofs.OpenApi.LeftReferences
import ProviderSchema.Proofs.OpenApi.StandingSchemas

/-!
# Copies of schemas

When references are inlined, every schema of the result is a copy of a schema that
was there before: `CopyOf` goes down both of them in step.  Where the original is a
reference, the copy is one of the component schema that the reference stands for,
and bears its name.  An inline schema is copied keyword by keyword; it bears the name
of a component exactly if it is the whole of that component.

`copyOf_inlinedBelow` is the law for one schema, by induction on inlining.
`Description.Contains.exists_copyOf` says of which schemas of a description those of
the inlined description are copies.
-/

namespace ProviderSchema.OpenApi

/-! ## The same steps -/

/-- The shape of children tells which steps lead to one. -/
theorem Children.child?_shape {α : Type} (c : Children α) (step : Step) :
    c.shape.child? step = (c.child? step).map fun _ => () := by
  obtain ⟨properties, additional, items, allOf, oneOf, anyOf⟩ := c
  cases step with
  | property name => exact Table.get?_map (fun _ => ()) properties name
  | items => rcases items with _ | ⟨_ | _ | _⟩ <;> rfl
  | additional => rcases additional with _ | ⟨_ | _⟩ <;> rfl
  | allOf i => exact List.getElem?_map
  | oneOf i => exact List.getElem?_map
  | anyOf i => exact List.getElem?_map
  | tuple i =>
    rcases items with _ | ⟨_ | members | _⟩
    · rfl
    · rfl
    · exact List.getElem?_map
    · rfl

theorem Children.exists_child?_of_shape_eq {α : Type} {c c' : Children α} {step : Step} {t : α}
    (hshape : c'.shape = c.shape) (h : c'.child? step = some t) : ∃ s, c.child? step = some s := by
  have hstep := congrArg (fun shape => shape.child? step) hshape
  simp only [child?_shape, h, Option.map_some] at hstep
  simpa [eq_comm] using hstep

theorem Children.names_of_shape_eq {α : Type} {c c' : Children α} (hshape : c'.shape = c.shape) :
    c'.properties.map (·.1) = c.properties.map (·.1) := by
  have hproperties := congrArg (fun shape => shape.properties.map (·.1)) hshape
  simpa [shape, Function.comp_def] using hproperties

/-- Whether a step leads to a member of a composition. -/
def Step.isIntoComposition : Step → Bool
  | .allOf _ | .anyOf _ | .oneOf _ => true
  | _ => false

/-- A step leads to every member of a composition. -/
theorem Children.exists_child?_of_mem_composition {c : Children Schema} {s : Schema}
    (h : s ∈ c.allOf ++ c.anyOf ++ c.oneOf) :
    ∃ step, step.isIntoComposition = true ∧ c.child? step = some s := by
  rw [List.mem_append, List.mem_append] at h
  rcases h with (h | h) | h
  · obtain ⟨i, hi⟩ := List.mem_iff_getElem?.mp h
    exact ⟨.allOf i, rfl, hi⟩
  · obtain ⟨i, hi⟩ := List.mem_iff_getElem?.mp h
    exact ⟨.anyOf i, rfl, hi⟩
  · obtain ⟨i, hi⟩ := List.mem_iff_getElem?.mp h
    exact ⟨.oneOf i, rfl, hi⟩

/-- A step leads to everything that is held, where no name is used twice. -/
theorem Children.Holds.exists_child? {c : Children Schema} {s : Schema} (h : c.Holds s)
    (hnames : (c.properties.map (·.1)).Nodup) : ∃ step, c.child? step = some s := by
  cases h with
  | property name h => exact ⟨.property name, (Table.get?_eq_some_iff hnames).mpr h⟩
  | additional h => exact ⟨.additional, by rw [child?, h]⟩
  | items h => exact ⟨.items, by rw [child?, h]⟩
  | tuple members h mem =>
    obtain ⟨i, hi⟩ := List.mem_iff_getElem?.mp mem
    exact ⟨.tuple i, by rw [child?, h]; exact hi⟩
  | composed h =>
    obtain ⟨step, -, hstep⟩ := Children.exists_child?_of_mem_composition h
    exact ⟨step, hstep⟩

namespace Schema

variable {schemas : List (String × Schema)}

/-! ## Copies -/

/-- A schema is what inlining made of another one; `origin` is the name of the
component that the other one is the whole of. -/
inductive CopyOf (schemas : List (String × Schema)) : Option String → Schema → Schema → Prop where
  /-- A reference that stays. -/
  | left (origin : Option String) (target : String) :
      CopyOf schemas origin (.reference target) (.reference target)
  /-- What a reference stands for. -/
  | target {origin : Option String} {target name : String} {s t : Schema}
      (hlookup : lookup schemas target = .ok (name, s)) (copy : CopyOf schemas (some name) s t) :
      CopyOf schemas origin (.reference target) t
  | inline (origin : Option String) {keywords : Keywords} {c c' : Children Schema}
      (names : (c.properties.map (·.1)).Nodup) (shape : c'.shape = c.shape)
      (children : ∀ step s t, c.child? step = some s → c'.child? step = some t →
        CopyOf schemas none s t) :
      CopyOf schemas origin (.inline keywords c) (.inline { keywords with origin := origin } c')

theorem CopyOf.inline_inversion {origin : Option String} {keywords keywords' : Keywords}
    {c c' : Children Schema}
    (h : CopyOf schemas origin (.inline keywords c) (.inline keywords' c')) :
    keywords' = { keywords with origin := origin } ∧ (c.properties.map (·.1)).Nodup ∧
      c'.shape = c.shape ∧ ∀ step s t, c.child? step = some s → c'.child? step = some t →
        CopyOf schemas none s t := by
  cases h with
  | inline _ names shape children => exact ⟨rfl, names, shape, children⟩

/-- A plain schema is a copy of itself. -/
theorem Plain.copyOf_self {s : Schema} (h : s.Plain) : CopyOf schemas none s s := by
  induction h with
  | reference target => exact .left none target
  | @inline keywords c origin names _ ih =>
    have hsame : Schema.inline keywords c = .inline { keywords with origin := none } c := by
      rw [← origin]
    rw [hsame]
    refine .inline none names rfl fun step s t hs ht => ?_
    obtain rfl : s = t := Option.some_inj.mp (hs.symm.trans ht)
    exact ih s (c.holds_of_child?_eq_some hs)

/-- A schema as the whole of a component, or as no such thing. -/
def copiedAs : Option String → Schema → Schema
  | none, s => s
  | some name, s => s.copiedFrom name

@[simp] theorem copiedAs_reference (origin : Option String) (target : String) :
    copiedAs origin (.reference target) = .reference target := by
  cases origin <;> rfl

theorem copiedAs_copiedFrom (origin : Option String) (name : String) (s : Schema) :
    copiedAs origin (s.copiedFrom name) = s.copiedFrom name := by
  cases origin with
  | none => rfl
  | some name' => exact copiedFrom_copiedFrom name name' s

theorem copiedAs_inline {keywords : Keywords} (h : keywords.origin = none) (origin : Option String)
    (c : Children Schema) :
    copiedAs origin (.inline keywords c) = .inline { keywords with origin := origin } c := by
  cases origin with
  | none => rw [copiedAs, ← h]
  | some name => rw [copiedAs, copiedFrom, h, Option.getD_none]

/-- What inlining makes of a plain schema is a copy of it. -/
theorem copyOf_inlinedBelow (hschemas : ∀ entry ∈ schemas, entry.2.Plain)
    (visited : List String) {s : Schema} (hs : s.Plain) (origin : Option String) :
    CopyOf schemas origin s (copiedAs origin (s.inlinedBelow schemas visited)) := by
  induction visited, s using inductionOnInlining schemas generalizing origin with
  | visited visited target hmem =>
    rw [inlinedBelow_of_mem hmem, copiedAs_reference]
    exact .left origin target
  | unknown visited target e hlookup =>
    rw [inlinedBelow_of_lookup_eq_error hlookup, copiedAs_reference]
    exact .left origin target
  | expanded visited target name s hnew hlookup ih =>
    rw [inlinedBelow_of_lookup_eq_ok hlookup hnew, copiedAs_copiedFrom]
    obtain ⟨-, hget⟩ := (Reference.lookup_eq_ok_iff (by decide)).mp hlookup
    exact .target hlookup (ih (hschemas _ (Table.mem_of_get?_eq_some hget)) (some name))
  | inline visited keywords c ih =>
    obtain ⟨-⟩ | ⟨horigin, hnames, hheld⟩ := hs
    rw [inlinedBelow_inline, copiedAs_inline horigin]
    refine .inline origin hnames (shape_substituteChildren _ c) fun step s t hs ht => ?_
    have hs' := c.holds_of_child?_eq_some hs
    rw [child?_substituteChildren, hs] at ht
    split at ht
    · -- The members of a tuple stay as they are.
      cases ht
      exact (hheld s hs').copyOf_self
    · cases ht
      exact ih s hs' (hheld s hs') none

theorem copyOf_inlined (hschemas : ∀ entry ∈ schemas, entry.2.Plain) {s : Schema} (hs : s.Plain) :
    CopyOf schemas none s (s.inlined schemas) :=
  copyOf_inlinedBelow hschemas [] hs none

end Schema

/-! ## What stands in an inlined description -/

/-- The schemas of a part of a description after its references are inlined, and
before. -/
def Components.Inlines (c : Components) (before after : List Schema) : Prop :=
  ∀ t ∈ after, ∃ s, (s ∈ before ∨ s ∈ c.otherSchemas) ∧ t = s.inlined c.schemas

namespace Components

variable {c : Components}

theorem Inlines.append {before after before' after' : List Schema} (h : c.Inlines before after)
    (h' : c.Inlines before' after') : c.Inlines (before ++ before') (after ++ after') := by
  intro t ht
  rcases List.mem_append.mp ht with ht | ht
  · obtain ⟨s, hs, rfl⟩ := h t ht
    exact ⟨s, hs.imp_left (List.mem_append_left _), rfl⟩
  · obtain ⟨s, hs, rfl⟩ := h' t ht
    exact ⟨s, hs.imp_left (List.mem_append_right _), rfl⟩

theorem Inlines.flatMap {α : Type} {inline : α → α} {schemas : α → List Schema}
    (h : ∀ a, c.Inlines (schemas a) (schemas (inline a))) (l : List α) :
    c.Inlines (l.flatMap schemas) ((l.map inline).flatMap schemas) := by
  induction l with
  | nil => exact fun t ht => by cases ht
  | cons a rest ih => exact (h a).append ih

/-- A thing that may be a reference has the schemas of what it leads to. -/
theorem inlines_orReference {α : Type} (section_ : Section) {table : List (String × OrReference α)}
    {inline : α → α} {schemas : α → List Schema}
    (hinline : ∀ a, schemas (inline a) = (schemas a).map (Schema.inlined c.schemas))
    (htable : ∀ entry ∈ table, ∀ s ∈ entry.2.schemas schemas, s ∈ c.otherSchemas)
    (node : OrReference α) :
    c.Inlines (node.schemas schemas)
      ((node.inlined section_.text table inline).schemas schemas) := by
  intro t ht
  rcases OrReference.exists_passes_of_inlined section_ table inline node with
    ⟨names, value, hway, hlength, hresult⟩ | ⟨hresult, ⟨target, rfl⟩, -⟩
  · rw [hresult, OrReference.schemas, hinline, List.mem_map] at ht
    obtain ⟨s, hs, rfl⟩ := ht
    refine ⟨s, ?_, rfl⟩
    cases hway with
    | here => exact .inl hs
    | entry hget rest =>
      cases rest with
      | here => exact .inr (htable _ (Table.mem_of_get?_eq_some hget) s hs)
      | entry => simp at hlength
  · rw [hresult] at ht
    cases ht

theorem contentSchemas_mapContent (f : Schema → Schema) (content : List (String × MediaType)) :
    contentSchemas (mapContent f content) = (contentSchemas content).map f := by
  unfold contentSchemas mapContent
  rw [List.flatMap_map, List.map_flatMap]
  exact congrArg content.flatMap (funext fun entry => Option.toList_map)

theorem inlines_parameter (p : OrReference Parameter) :
    c.Inlines (p.schemas Parameter.schemas) ((c.inlinedParameter p).schemas Parameter.schemas) := by
  refine inlines_orReference .parameters (fun p => ?_) (fun entry hentry s hs => ?_) p
  · exact Option.toList_map
  · exact List.mem_append_left _
      (List.mem_append_right _ (List.mem_flatMap.mpr ⟨entry, hentry, hs⟩))

theorem inlines_body (b : OrReference RequestBody) :
    c.Inlines (b.schemas RequestBody.schemas) ((c.inlinedBody b).schemas RequestBody.schemas) := by
  refine inlines_orReference .requestBodies (fun b => ?_) (fun entry hentry s hs => ?_) b
  · exact contentSchemas_mapContent _ _
  · exact List.mem_append_right _ (List.mem_flatMap.mpr ⟨entry, hentry, hs⟩)

theorem inlines_response (r : OrReference Response) :
    c.Inlines (r.schemas Response.schemas) ((c.inlinedResponse r).schemas Response.schemas) := by
  refine inlines_orReference .responses (fun r => ?_) (fun entry hentry s hs => ?_) r
  · exact contentSchemas_mapContent _ _
  · exact List.mem_append_left _
      (List.mem_append_left _ (List.mem_flatMap.mpr ⟨entry, hentry, hs⟩))

theorem inlines_operation (o : Operation) :
    c.Inlines o.schemas (c.inlinedOperation o).schemas := by
  refine ((Inlines.flatMap inlines_parameter o.parameters).append ?_).append ?_
  · show c.Inlines _ ((o.requestBody.map c.inlinedBody).toList.flatMap _)
    rw [Option.toList_map]
    exact .flatMap inlines_body o.requestBody.toList
  · exact .flatMap (fun entry => inlines_response entry.2) o.responses

theorem inlines_pathItem (item : PathItem) :
    c.Inlines item.schemas (c.inlinedPathItem item).schemas := by
  refine (Inlines.flatMap inlines_parameter item.parameters).append fun t ht => ?_
  obtain ⟨m, hm, ht⟩ := List.mem_flatMap.mp ht
  rw [operation?_inlinedPathItem, Option.toList_map] at ht
  obtain ⟨s, hs, rfl⟩ := Inlines.flatMap inlines_operation (item.operation? m).toList t ht
  exact ⟨s, hs.imp_left fun hs => List.mem_flatMap.mpr ⟨m, hm, hs⟩, rfl⟩

end Components

namespace Description

variable {d : Description}

theorem schemas_inlined (d : Description) :
    d.inlined.schemas =
      d.schemas.map fun (name, s) => (name, (s.inlined d.schemas).copiedFrom name) := by
  unfold inlined schemas
  cases d.components <;> rfl

/-- A schema at the top is inlined, or stands where references are left alone. -/
theorem mem_topSchemas_inlined {t : Schema} (h : t ∈ d.inlined.topSchemas) :
    t ∈ d.topSchemas ∨ ∃ s ∈ d.topSchemas, t = s.inlined d.schemas := by
  have hpaths : (d.components.getD {}).Inlines (d.paths.flatMap fun entry => entry.2.schemas)
      (d.inlined.paths.flatMap fun entry => entry.2.schemas) :=
    .flatMap (fun entry => Components.inlines_pathItem entry.2) d.paths
  rw [topSchemas] at h
  rcases List.mem_append.mp h with h | h
  · obtain ⟨s, hs, rfl⟩ := hpaths t h
    exact .inr ⟨s, List.mem_append.mpr hs, by rw [schemas_eq]⟩
  · refine .inl (List.mem_append_right _ ?_)
    rw [inlined] at h
    cases hc : d.components with
    | none => rwa [hc] at h
    | some c => rwa [hc] at h

theorem Contains.of_contains {s t : Schema} (h : d.Contains t) (hs : Schema.Contains s t) :
    d.Contains s := by
  have htrans {u : Schema} (hu : Schema.Contains t u) : Schema.Contains s u := by
    induction hu with
    | here => exact hs
    | child held _ ih => exact .child held ih
  cases h with
  | top h below => exact .top h (htrans below)
  | component h below => exact .component h (htrans below)

/-- What stands in a copy is the copy itself or a copy of a schema of the description. -/
theorem exists_copyOf_of_contains {origin : Option String} {s t u : Schema}
    (h : Schema.CopyOf d.schemas origin s t) (hs : d.Contains s) (hu : Schema.Contains u t) :
    u = t ∨ ∃ s', d.Contains s' ∧ Schema.CopyOf d.schemas none s' u := by
  induction h with
  | left origin target =>
    cases hu
    exact .inl rfl
  | target hlookup _ ih =>
    obtain ⟨-, hget⟩ := (Reference.lookup_eq_ok_iff (by decide)).mp hlookup
    exact ih (.component (Table.mem_of_get?_eq_some hget) .here) hu
  | @inline origin keywords c c' names shape children ih =>
    cases hu with
    | here => exact .inl rfl
    | @child _ _ t held below =>
      rw [← Children.names_of_shape_eq shape] at names
      obtain ⟨step, ht⟩ := held.exists_child? names
      obtain ⟨s', hs'⟩ := Children.exists_child?_of_shape_eq shape ht
      have hin : d.Contains s' := hs.of_contains (.child (c.holds_of_child?_eq_some hs') .here)
      rcases ih step s' t hs' ht hin below with rfl | hfound
      · exact .inr ⟨s', hin, children step s' u hs' ht⟩
      · exact .inr hfound

/-- Every schema of an inlined description is a copy of a schema of the description
or the copy of a whole component. -/
theorem Contains.exists_copyOf (hd : d.Plain) {t : Schema} (h : d.inlined.Contains t) :
    (∃ s, d.Contains s ∧ Schema.CopyOf d.schemas none s t) ∨
      ∃ name s, (name, s) ∈ d.schemas ∧ Schema.CopyOf d.schemas (some name) s t := by
  have hschemas : ∀ entry ∈ d.schemas, entry.2.Plain := fun entry hentry =>
    hd.schemas _ (.component hentry .here)
  cases h with
  | @top u h below =>
    have hcopy : ∃ s, d.Contains s ∧ Schema.CopyOf d.schemas none s u := by
      rcases mem_topSchemas_inlined h with hu | ⟨s, hs, rfl⟩
      · exact ⟨u, .top hu .here, (hd.schemas u (.top hu .here)).copyOf_self⟩
      · exact ⟨s, .top hs .here, Schema.copyOf_inlined hschemas (hd.schemas s (.top hs .here))⟩
    obtain ⟨s, hs, hcopy⟩ := hcopy
    rcases exists_copyOf_of_contains hcopy hs below with rfl | hfound
    · exact .inl ⟨s, hs, hcopy⟩
    · exact .inl hfound
  | @component name u h below =>
    have hcopy : ∃ s, (name, s) ∈ d.schemas ∧ Schema.CopyOf d.schemas (some name) s u := by
      rw [schemas_inlined] at h
      obtain ⟨⟨name', s⟩, hs, heq⟩ := List.mem_map.mp h
      cases heq
      exact ⟨s, hs, Schema.copyOf_inlinedBelow hschemas [] (hschemas _ hs) (some name)⟩
    obtain ⟨s, hs, hcopy⟩ := hcopy
    rcases exists_copyOf_of_contains hcopy (.component hs .here) below with rfl | hfound
    · exact .inr ⟨name, s, hs, hcopy⟩
    · exact .inl hfound

end Description

end ProviderSchema.OpenApi
