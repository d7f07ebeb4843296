import ProviderSchema.Proofs.Assembly.Identifiers
import ProviderSchema.Proofs.Assembly.Overrides
import ProviderSchema.Proofs.Node.BuiltPruned

/-!
# Schemas with ignored paths

Whatever a schema is if nothing is ignored, it is the same with ignored paths,
less the attributes at these paths: bodies and parameters contribute what is
left of what they would contribute, and it makes no difference whether
attributes are left out before contributions are merged and descriptions are
replaced or after that.

The names of the attributes of a provider are identifiers, so the paths are
the names joined by dots (`Source.provider_ignoring`).  An attribute of a
resource may have the empty name, if a parameter has the empty alias.  Then
the paths of the attributes below it are written without the dot that would
come first, so that they are left out under the paths of other attributes
(`Source.resource_ignoring`).
-/

namespace ProviderSchema

open OpenApi
open Attribute (pathOf dottedPath isIgnored pruned prunedBelow withoutIgnored)

/-! ## Options with ignored paths -/

/-- The options, with other paths that are ignored. -/
def SchemaOptions.ignoring (options : SchemaOptions) (ignores : List String) : SchemaOptions :=
  { options with ignores }

/-- The resource, with other paths that are ignored. -/
def ResourceConfiguration.ignoring (c : ResourceConfiguration) (ignores : List String) :
    ResourceConfiguration :=
  { c with schema := c.schema.ignoring ignores }

/-- The provider, with other paths that are ignored. -/
def ProviderConfiguration.ignoring (c : ProviderConfiguration) (ignores : List String) :
    ProviderConfiguration :=
  { c with ignores }

/-- What is taken if nothing is ignored is taken unless it is ignored. -/
theorem SchemaOptions.takes_ignoring (options : SchemaOptions) (ignores : List String)
    (p : Parameter) :
    (options.ignoring ignores).takes p =
      (!isIgnored pathOf ignores [Builder.parameterName options.attributes.aliases p] &&
        (options.ignoring []).takes p) := by
  unfold takes isIgnored ignoring
  cases Builder.contributes p <;> cases p.schema.isSome <;> simp

/-! ## Contributions -/

namespace Builder

variable {b : Builder} {ignores : List String}

theorem pruned_bodyAttributes {body : Body} {attributes : List Attribute}
    (h : (b.ignoring []).bodyAttributes body = .ok attributes) :
    (b.ignoring ignores).bodyAttributes body = .ok (withoutIgnored pathOf ignores attributes) := by
  rcases bodyAttributes_eq_ok_iff.mp h with
    ⟨schema, node, hschema, hnode, hattributes⟩ | ⟨e, hschema, hmissing, hfound, rfl⟩
  · refine bodyAttributes_eq_ok_iff.mpr (.inl ⟨schema, node, hschema, hnode, ?_⟩)
    exact pruned_attributes (b := { b with forced := body.forced }) hattributes
  · exact bodyAttributes_eq_ok_iff.mpr (.inr ⟨e, hschema, hmissing, hfound, rfl⟩)

theorem pruned_parameterAttribute {role : ParameterRole} {name : String} {p : Parameter}
    {schema : Schema} {a : Attribute}
    (h : (b.ignoring []).parameterAttribute role name p schema = .ok a) :
    (b.ignoring ignores).parameterAttribute role name p schema =
      .ok (prunedBelow (isIgnored pathOf ignores) [name] a) := by
  obtain ⟨node, built, hnode, hbuilt, rfl⟩ := parameterAttribute_eq_ok_iff.mp h
  refine parameterAttribute_eq_ok_iff.mpr
    ⟨node, prunedBelow (isIgnored pathOf ignores) [name] built, hnode, ?_, ?_⟩
  · exact pruned_attributeNamed (b := { b with forced := (parameterComputability role p).1 }) hbuilt
  · split
    · exact Attribute.prunedBelow_mapTraits _ _
    · rfl

theorem pruned_parameterAttributes {role : ParameterRole} {options : SchemaOptions}
    {parameters : List Parameter} {attributes : List Attribute}
    (h : (b.ignoring []).parameterAttributes role (options.ignoring []) parameters =
      .ok attributes) :
    (b.ignoring ignores).parameterAttributes role (options.ignoring ignores) parameters =
      .ok (withoutIgnored pathOf ignores attributes) := by
  unfold withoutIgnored
  induction parameters generalizing attributes with
  | nil =>
    cases h
    rfl
  | cons p rest ih =>
    rcases parameterAttributes_cons_eq_ok h with
      ⟨htakes, hlater⟩ | ⟨htakes, schema, a, later, hschema, ha, hlater, rfl⟩
    · have hpassed : (options.ignoring ignores).takes p = false := by
        rw [options.takes_ignoring, htakes, Bool.and_false]
      rw [parameterAttributes_cons_of_takes_eq_false hpassed, ih hlater]
    · have hname : a.name = parameterName options.attributes.aliases p := name_parameterAttribute ha
      cases hdrop : isIgnored pathOf ignores [parameterName options.attributes.aliases p] with
      | true =>
        have hpassed : (options.ignoring ignores).takes p = false := by
          rw [options.takes_ignoring, hdrop, Bool.not_true, Bool.false_and]
        rw [parameterAttributes_cons_of_takes_eq_false hpassed, ih hlater,
          Attribute.pruned_cons_of_drop (by rw [hname]; exact hdrop)]
      | false =>
        have htaken : (options.ignoring ignores).takes p = true := by
          rw [options.takes_ignoring, hdrop, Bool.not_false, Bool.true_and, htakes]
        have hbuilt : (b.ignoring ignores).parameterAttribute role
            (parameterName (options.ignoring ignores).attributes.aliases p) p schema =
              .ok (prunedBelow (isIgnored pathOf ignores)
                [parameterName options.attributes.aliases p] a) :=
          pruned_parameterAttribute ha
        rw [parameterAttributes_cons_of_takes htaken hschema, hbuilt, ih hlater,
          Attribute.pruned_cons_of_keep (by rw [hname]; exact hdrop), hname]
        rfl

theorem pruned_operationParameters {role : ParameterRole} {options : SchemaOptions}
    {o : ExploredOperation} {attributes : List Attribute}
    (h : (b.ignoring []).operationParameters role (options.ignoring []) o = .ok attributes) :
    (b.ignoring ignores).operationParameters role (options.ignoring ignores) o =
      .ok (withoutIgnored pathOf ignores attributes) :=
  mapError_eq_ok_iff.mpr (pruned_parameterAttributes (mapError_eq_ok_iff.mp h))

end Builder

/-- Attributes may be left out before or after descriptions are replaced. -/
theorem pruned_applyOverrides (drop : List String → Bool) (path : List String)
    (overrides : List (String × AttributeOverride)) (attributes : List Attribute) :
    pruned drop path (applyOverrides overrides attributes) =
      applyOverrides overrides (pruned drop path attributes) := by
  unfold applyOverrides
  induction overrides generalizing attributes with
  | nil => rfl
  | cons entry rest ih =>
    rw [List.foldl_cons, ih, List.foldl_cons, AttributeOverride.apply_eq,
      AttributeOverride.apply_eq]
    cases entry.2.description with
    | none => rfl
    | some description =>
      congr 1
      exact Attribute.pruned_updateTraits _ _ _

/-! ## Identifiers in paths -/

theorem ne_empty_of_allIdentifiers {attributes : List Attribute}
    (h : AllIdentifiers (attributes.map Attribute.name)) : ∀ a ∈ attributes, a.name ≠ "" :=
  fun _ ha => Text.ne_empty_of_isIdentifier (h _ (List.mem_map_of_mem ha))

/-- Where names below attributes are identifiers, only attributes of the empty
name are in the way of dots. -/
theorem withoutIgnored_pathOf_eq_iff_of_namesBelow {attributes : List Attribute}
    (h : ∀ a ∈ attributes, a.NamesBelow AllIdentifiers) :
    (∀ ignores, withoutIgnored pathOf ignores attributes =
        withoutIgnored dottedPath ignores attributes) ↔
      ∀ a ∈ attributes, a.name = "" → ∀ l, a.children? = some l → l = [] :=
  Attribute.withoutIgnored_pathOf_eq_dottedPath_iff fun a ha l hl =>
    ne_empty_of_allIdentifiers ((Attribute.namesBelow_iff.mp (h a ha)).2 l hl).names

namespace Source

variable {s : Source}

/-! ## Resources -/

theorem resourceContributions_ignoring {c : ResourceConfiguration} {o : ResourceOperations}
    {primary : List Attribute} {others : List (List Attribute)}
    (h : s.resourceContributions (c.ignoring []) o = .ok (primary, others))
    (ignores : List String) :
    s.resourceContributions (c.ignoring ignores) o =
      .ok (withoutIgnored pathOf ignores primary, others.map (withoutIgnored pathOf ignores)) := by
  obtain ⟨hprimary, bodies, parameters, hbodies, hparameters, rfl⟩ :=
    resourceContributions_eq_ok_iff.mp h
  let b := s.entryBuilder .resource c.schema
  have hbodies' : o.others.mapM (b.ignoring ignores).bodyAttributes =
      .ok (bodies.map (withoutIgnored pathOf ignores)) := by
    apply mapM_eq_ok_of_forall₂
    rw [List.forall₂_map_right_iff]
    exact (forall₂_of_mapM_eq_ok hbodies).imp fun _ _ => Builder.pruned_bodyAttributes (b := b)
  refine resourceContributions_eq_ok_iff.mpr ⟨Builder.pruned_bodyAttributes (b := b) hprimary,
    bodies.map (withoutIgnored pathOf ignores), withoutIgnored pathOf ignores parameters,
    hbodies', Builder.pruned_operationParameters (b := b) hparameters, ?_⟩
  rw [List.map_append, List.map_singleton]

/-- A resource with ignored paths is the resource, less the attributes at
these paths. -/
theorem resource_ignoring {name : String} {c : ResourceConfiguration}
    {attributes : List Attribute} (h : s.resource name (c.ignoring []) = .ok attributes)
    (ignores : List String) :
    s.resource name (c.ignoring ignores) = .ok (withoutIgnored pathOf ignores attributes) := by
  obtain ⟨o, primary, others, hoperations, hcontributions, rfl⟩ := resource_eq_ok_iff.mp h
  refine resource_eq_ok_iff.mpr ⟨o, withoutIgnored pathOf ignores primary,
    others.map (withoutIgnored pathOf ignores), hoperations,
    resourceContributions_ignoring hcontributions ignores, ?_⟩
  rw [withoutIgnored, pruned_applyOverrides, Attribute.pruned_mergeAttributes]
  rfl

/-- The paths may be written with all dots if and only if nothing is below an
attribute of the empty name. -/
theorem resource_ignoring_dottedPath_iff {name : String} {c : ResourceConfiguration}
    {attributes : List Attribute} (h : s.resource name (c.ignoring []) = .ok attributes) :
    (∀ ignores, s.resource name (c.ignoring ignores) =
        .ok (withoutIgnored dottedPath ignores attributes)) ↔
      ∀ a ∈ attributes, a.name = "" → ∀ l, a.children? = some l → l = [] := by
  rw [← withoutIgnored_pathOf_eq_iff_of_namesBelow (identifiersThroughout_resource_iff h).1]
  simp only [resource_ignoring h, Except.ok.injEq]

/-! ## The provider -/

/-- A provider with ignored paths is the provider, less the attributes at
these paths. -/
theorem provider_ignoring {c : ProviderConfiguration} {entry : ProviderEntry}
    (h : s.provider (c.ignoring []) = .ok entry) (ignores : List String) :
    s.provider (c.ignoring ignores) =
      .ok { entry with
        attributes := entry.attributes.map (withoutIgnored dottedPath ignores) } := by
  obtain ⟨hname, ⟨hreference, hnone⟩ |
    ⟨target, name, node, attributes, hreference, htarget, hnode, hattributes, hsome⟩⟩ :=
    provider_eq_ok_iff.mp h
  · refine provider_eq_ok_iff.mpr ⟨hname, .inl ⟨hreference, ?_⟩⟩
    rw [hnone, Option.map_none]
  · have hidentifiers := namesThroughout_provider holdsOfArranged_allIdentifiers h hsome
    have hne := ne_empty_of_allIdentifiers hidentifiers.names
    have hdotted := (withoutIgnored_pathOf_eq_iff_of_namesBelow hidentifiers.each).mpr
      (fun a ha hempty => absurd hempty (hne a ha)) ignores
    refine provider_eq_ok_iff.mpr ⟨hname, .inr ⟨target, name, node, _, hreference, htarget, hnode,
      Builder.pruned_attributes (b := s.providerBuilder c) hattributes, ?_⟩⟩
    rw [hsome, Option.map_some, ← hdotted]
    rfl

/-! ## Resources and providers -/

/-- Ignored paths change nothing but that the attributes at these paths are
left out, of resources and of providers.  Only of a resource in which there is
something below an attribute of the empty name, others are left out than those
at the names joined by dots. -/
theorem ignoring_eq_ok (s : Source) :
    (∀ name (c : ResourceConfiguration) attributes,
      s.resource name (c.ignoring []) = .ok attributes →
        (∀ ignores, s.resource name (c.ignoring ignores) =
          .ok (withoutIgnored pathOf ignores attributes)) ∧
        ((∀ ignores, s.resource name (c.ignoring ignores) =
            .ok (withoutIgnored dottedPath ignores attributes)) ↔
          ∀ a ∈ attributes, a.name = "" → ∀ l, a.children? = some l → l = [])) ∧
      ∀ (c : ProviderConfiguration) entry, s.provider (c.ignoring []) = .ok entry →
        ∀ ignores, s.provider (c.ignoring ignores) =
          .ok { entry with
            attributes := entry.attributes.map (withoutIgnored dottedPath ignores) } :=
  ⟨fun _ _ _ h => ⟨resource_ignoring h, resource_ignoring_dottedPath_iff h⟩,
    fun _ _ => provider_ignoring⟩

end Source

/-! ## A parameter with the empty alias -/

/-- A plot has a name and is found by a corner, with the help of a server. -/
def plotDescription : Description where
  openapi := "3.0.0"
  info := { title := "Plots", version := "1" }
  paths := [("/plots", {
    post := some { requestBody := some (.inline { content := [("application/json",
      { schema := some (objectOfTexts ["name"]) })] }) }
    get := some { parameters := [.inline
      { name := "corner", place := .query, schema := some (objectOfTexts ["x", "y"]) }] } })]
  components := some { schemas := [("Help", .inline { type := some (.single .object) }
    { properties := [("server", objectOfTexts ["host", "port"])] })] }

/-- What plots are generated from. -/
def plotSource : Source := .ofDescription plotDescription none

/-- The corner of a plot is called by an alias. -/
def plotConfiguration (cornerAlias : String) : ResourceConfiguration where
  create := some ⟨"/plots", "POST"⟩
  read := some ⟨"/plots", "GET"⟩
  schema := { attributes := { aliases := [("corner", cornerAlias)] } }

/-- A configuration of the provider with a schema of its own. -/
def helpConfiguration : ProviderConfiguration where
  name := "plots"
  schemaReference := some "#/components/schemas/Help"

/-- The names of attributes, and those of the attributes below each. -/
def nameTree (attributes : List Attribute) : List (String × List String) :=
  attributes.map fun a => (a.name, (a.children?.getD []).map Attribute.name)

/-- The name of a plot and a coordinate of its corner may be ignored, and so
may the port of the server. -/
theorem ignoring_eq_ok_plots :
    (∃ attributes, plotSource.resource "plot" ((plotConfiguration "corner").ignoring []) =
        .ok attributes ∧ nameTree attributes = [("name", []), ("corner", ["x", "y"])] ∧
        plotSource.resource "plot" ((plotConfiguration "corner").ignoring ["name", "corner.x"]) =
          .ok (withoutIgnored dottedPath ["name", "corner.x"] attributes) ∧
        nameTree (withoutIgnored dottedPath ["name", "corner.x"] attributes) =
          [("corner", ["y"])]) ∧
      ∃ entry, plotSource.provider (helpConfiguration.ignoring []) = .ok entry ∧
        entry.attributes.map nameTree = some [("server", ["host", "port"])] ∧
        plotSource.provider (helpConfiguration.ignoring ["server.port"]) =
          .ok { entry with
            attributes := entry.attributes.map (withoutIgnored dottedPath ["server.port"]) } := by
  constructor
  · obtain ⟨attributes, hattributes, hnames⟩ := exists_ok_of_toOption_map_eq_some
      (show (plotSource.resource "plot" ((plotConfiguration "corner").ignoring [])).toOption.map
        nameTree = some [("name", []), ("corner", ["x", "y"])] by decide +kernel)
    obtain ⟨left, hleft, hleftNames⟩ := exists_ok_of_toOption_map_eq_some
      (show (plotSource.resource "plot"
        ((plotConfiguration "corner").ignoring ["name", "corner.x"])).toOption.map
          nameTree = some [("corner", ["y"])] by decide +kernel)
    have hnamed : ∀ a ∈ attributes, a.name ≠ "" := by
      intro a ha
      have hmem : (a.name, _) ∈ nameTree attributes := List.mem_map_of_mem ha
      rw [hnames] at hmem
      intro hempty
      simp [hempty] at hmem
    have hignoring := (((Source.ignoring_eq_ok plotSource).1 _ _ _ hattributes).2.mpr
      fun a ha hempty => absurd hempty (hnamed a ha)) ["name", "corner.x"]
    rw [hignoring] at hleft
    cases hleft
    exact ⟨attributes, hattributes, hnames, hignoring, hleftNames⟩
  · obtain ⟨entry, hentry, hnames⟩ := exists_ok_of_toOption_map_eq_some
      (show (plotSource.provider (helpConfiguration.ignoring [])).toOption.map
        (fun entry => entry.attributes.map nameTree) = some (some [("server", ["host", "port"])])
        by decide +kernel)
    exact ⟨entry, hentry, hnames,
      (Source.ignoring_eq_ok plotSource).2 _ _ hentry ["server.port"]⟩

/-- The coordinates below the empty name are left out under their own names,
not under those with a dot in front. -/
theorem not_forall_resource_ignoring_dottedPath :
    ¬ ∀ (d : Description) lines name (c : ResourceConfiguration) attributes,
      (Source.ofDescription d lines).resource name (c.ignoring []) = .ok attributes →
        ∀ ignores, (Source.ofDescription d lines).resource name (c.ignoring ignores) =
          .ok (withoutIgnored dottedPath ignores attributes) := by
  intro h
  obtain ⟨attributes, hattributes, hnames⟩ := exists_ok_of_toOption_map_eq_some
    (show (plotSource.resource "plot" ((plotConfiguration "").ignoring [])).toOption.map
      nameTree = some [("name", []), ("", ["x", "y"])] by decide +kernel)
  have hnothing := (Source.resource_ignoring_dottedPath_iff hattributes).mp
    (h plotDescription none "plot" (plotConfiguration "") attributes hattributes)
  obtain ⟨a, ha, hcorner⟩ : ∃ a ∈ attributes,
      (a.name, (a.children?.getD []).map Attribute.name) = ("", ["x", "y"]) := by
    apply List.mem_map.mp
    rw [← nameTree, hnames]
    decide
  obtain ⟨hempty, hchildren⟩ := Prod.mk.inj hcorner
  cases hl : a.children? with
  | none =>
    rw [hl] at hchildren
    cases hchildren
  | some l =>
    rw [hl, hnothing a ha hempty l hl] at hchildren
    cases hchildren

end ProviderSchema
