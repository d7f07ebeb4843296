import ProviderSchema.Proofs.Assembly.Success
import ProviderSchema.Proofs.Attribute.Update
import ProviderSchema.Proofs.Node.BuiltNames

/-!
# The names of what operations contribute

Bodies contribute attributes with names in order, at every level.  Parameters
contribute attributes with names in order below them, but the names of these
attributes themselves are whatever `argumentNames` says: nothing keeps two
parameters from having one name.  Overrides change no names.

The last section says so of everything that is contributed to an entry.
-/

namespace ProviderSchema

open OpenApi

variable {P : List String → Prop} {b : Builder}

/-! ## Bodies -/

theorem namesThroughout_bodyAttributes (hP : HoldsOfArranged P) {body : Body}
    {attributes : List Attribute} (h : b.bodyAttributes body = .ok attributes) :
    NamesThroughout P attributes := by
  rcases Builder.bodyAttributes_eq_ok_iff.mp h with
    ⟨schema, node, -, hnode, hattributes⟩ | ⟨e, -, -, -, rfl⟩
  · exact namesThroughout_attributes hP (Schema.arranged_of_node_eq_ok hnode) hattributes
  · exact ⟨hP.nil, by simp⟩

/-! ## Parameters -/

/-- Whether a parameter becomes an attribute under some options. -/
def SchemaOptions.takes (options : SchemaOptions) (p : Parameter) : Bool :=
  Builder.contributes p &&
    !options.ignores.contains (Builder.parameterName options.attributes.aliases p) &&
    p.schema.isSome

/-- The names of the attributes of parameters, one for each parameter. -/
def argumentNames (options : SchemaOptions) (parameters : List Parameter) : List String :=
  (parameters.filter options.takes).map (Builder.parameterName options.attributes.aliases)

namespace Builder

theorem name_parameterAttribute {role : ParameterRole} {name : String} {p : Parameter}
    {schema : Schema} {a : Attribute} (h : b.parameterAttribute role name p schema = .ok a) :
    a.name = name := by
  obtain ⟨node, built, -, hbuilt, rfl⟩ := parameterAttribute_eq_ok_iff.mp h
  split
  · rw [Attribute.name_mapTraits, name_attributeNamed hbuilt]
  · exact name_attributeNamed hbuilt

theorem namesBelow_parameterAttribute (hP : HoldsOfArranged P) {role : ParameterRole}
    {name : String} {p : Parameter} {schema : Schema} {a : Attribute}
    (h : b.parameterAttribute role name p schema = .ok a) : a.NamesBelow P := by
  obtain ⟨node, built, hnode, hbuilt, rfl⟩ := parameterAttribute_eq_ok_iff.mp h
  have harranged := (Schema.arranged_of_node_eq_ok hnode).describedBy p.description
  have hbelow := namesBelow_attributeNamed hP harranged hbuilt
  split
  · exact hbelow.mapTraits _
  · exact hbelow

/-- Nothing is made of a parameter that is passed over. -/
theorem parameterAttributes_cons_of_takes_eq_false {role : ParameterRole} {options : SchemaOptions}
    {p : Parameter} (h : options.takes p = false) (rest : List Parameter) :
    b.parameterAttributes role options (p :: rest) = b.parameterAttributes role options rest := by
  rw [parameterAttributes]
  split
  · rfl
  · rename_i hkept
    rw [Bool.or_eq_true, not_or, Bool.not_eq_true', Bool.not_eq_false, Bool.not_eq_true] at hkept
    rw [SchemaOptions.takes, hkept.1, hkept.2] at h
    cases hschema : p.schema with
    | none => rfl
    | some schema =>
      rw [hschema] at h
      cases h

theorem parameterAttributes_cons_of_takes {role : ParameterRole} {options : SchemaOptions}
    {p : Parameter} {schema : Schema} (h : options.takes p = true)
    (hschema : p.schema = some schema) (rest : List Parameter) :
    b.parameterAttributes role options (p :: rest) =
      match b.parameterAttribute role (parameterName options.attributes.aliases p) p schema with
      | .error e => .error e
      | .ok a => (b.parameterAttributes role options rest).map (a :: ·) := by
  rw [SchemaOptions.takes, Bool.and_eq_true, Bool.and_eq_true, Bool.not_eq_true'] at h
  rw [parameterAttributes, h.1.1, h.1.2, hschema]
  rfl

theorem exists_schema_of_takes {options : SchemaOptions} {p : Parameter}
    (h : options.takes p = true) : ∃ schema, p.schema = some schema :=
  Option.isSome_iff_exists.mp (Bool.and_eq_true_iff.mp h).2

/-- A parameter is passed over, or it becomes an attribute. -/
theorem parameterAttributes_cons_eq_ok {role : ParameterRole} {options : SchemaOptions}
    {p : Parameter} {rest : List Parameter} {attributes : List Attribute}
    (h : b.parameterAttributes role options (p :: rest) = .ok attributes) :
    (options.takes p = false ∧ b.parameterAttributes role options rest = .ok attributes) ∨
      (options.takes p = true ∧ ∃ schema a later, p.schema = some schema ∧
        b.parameterAttribute role (parameterName options.attributes.aliases p) p schema = .ok a ∧
          b.parameterAttributes role options rest = .ok later ∧ attributes = a :: later) := by
  cases htakes : options.takes p with
  | false =>
    rw [parameterAttributes_cons_of_takes_eq_false htakes] at h
    exact .inl ⟨rfl, h⟩
  | true =>
    obtain ⟨schema, hschema⟩ := exists_schema_of_takes htakes
    rw [parameterAttributes_cons_of_takes htakes hschema] at h
    refine .inr ⟨rfl, schema, ?_⟩
    cases ha : b.parameterAttribute role (parameterName options.attributes.aliases p) p schema with
    | error e =>
      rw [ha] at h
      cases h
    | ok a =>
      rw [ha] at h
      obtain ⟨later, hlater, rfl⟩ := map_eq_ok_iff.mp h
      exact ⟨a, later, hschema, rfl, hlater, rfl⟩

/-- What holds of the attribute of every parameter holds of all attributes. -/
theorem forall_mem_parameterAttributes {Q : Attribute → Prop} {role : ParameterRole}
    {options : SchemaOptions}
    (h : ∀ name p schema a, b.parameterAttribute role name p schema = .ok a → Q a)
    {parameters : List Parameter} {attributes : List Attribute}
    (hattributes : b.parameterAttributes role options parameters = .ok attributes) :
    ∀ a ∈ attributes, Q a := by
  induction parameters generalizing attributes with
  | nil =>
    cases hattributes
    simp
  | cons p rest ih =>
    rcases parameterAttributes_cons_eq_ok hattributes with
      ⟨-, hrest⟩ | ⟨-, schema, a, later, -, ha, hlater, rfl⟩
    · exact ih hrest
    · rw [List.forall_mem_cons]
      exact ⟨h _ p schema a ha, ih hlater⟩

theorem map_name_parameterAttributes {role : ParameterRole} {options : SchemaOptions}
    {parameters : List Parameter} {attributes : List Attribute}
    (h : b.parameterAttributes role options parameters = .ok attributes) :
    attributes.map Attribute.name = argumentNames options parameters := by
  induction parameters generalizing attributes with
  | nil =>
    cases h
    rfl
  | cons p rest ih =>
    rcases parameterAttributes_cons_eq_ok h with
      ⟨htakes, hrest⟩ | ⟨htakes, schema, a, later, -, ha, hlater, rfl⟩
    · rw [argumentNames, List.filter_cons_of_neg (by simpa using htakes)]
      exact ih hrest
    · rw [argumentNames, List.filter_cons_of_pos htakes, List.map_cons, List.map_cons,
        name_parameterAttribute ha, ih hlater]
      rfl

theorem operationParameters_eq_ok (hP : HoldsOfArranged P) {role : ParameterRole}
    {options : SchemaOptions} {o : ExploredOperation} {attributes : List Attribute}
    (h : b.operationParameters role options o = .ok attributes) :
    attributes.map Attribute.name = argumentNames options o.parameters ∧
      ∀ a ∈ attributes, a.NamesBelow P :=
  have hbuilt := mapError_eq_ok_iff.mp h
  ⟨map_name_parameterAttributes hbuilt,
    forall_mem_parameterAttributes (fun _ _ _ _ => namesBelow_parameterAttribute hP) hbuilt⟩

end Builder

/-! ## Overrides -/

theorem keepsNames_apply (o : AttributeOverride) (path : String) (attributes : List Attribute) :
    (o.apply path attributes).map Attribute.name = attributes.map Attribute.name ∧
      ((∀ a ∈ attributes, a.NamesBelow P) → ∀ a ∈ o.apply path attributes, a.NamesBelow P) := by
  unfold AttributeOverride.apply
  split
  · exact ⟨rfl, id⟩
  · rename_i description hdescription
    cases hupdated : Attribute.update? attributes path (Attribute.describedAs description) with
    | none => exact ⟨rfl, id⟩
    | some updated =>
      exact Attribute.keepsNames_updateNames? (fun a => Attribute.name_mapTraits _ a)
        (fun a ha => ha.mapTraits _) hupdated

/-- Overrides change no names, at no level. -/
theorem keepsNames_applyOverrides (overrides : List (String × AttributeOverride))
    (attributes : List Attribute) :
    (applyOverrides overrides attributes).map Attribute.name = attributes.map Attribute.name ∧
      ((∀ a ∈ attributes, a.NamesBelow P) →
        ∀ a ∈ applyOverrides overrides attributes, a.NamesBelow P) := by
  unfold applyOverrides
  induction overrides generalizing attributes with
  | nil => exact ⟨rfl, id⟩
  | cons entry rest ih =>
    obtain ⟨hnames, heach⟩ := keepsNames_apply (P := P) entry.2 entry.1 attributes
    obtain ⟨hnames', heach'⟩ := ih (entry.2.apply entry.1 attributes)
    exact ⟨hnames'.trans hnames, fun h => heach' (heach h)⟩

theorem namesThroughout_applyOverrides_iff (overrides : List (String × AttributeOverride))
    {attributes : List Attribute} (heach : ∀ a ∈ attributes, a.NamesBelow P) :
    NamesThroughout P (applyOverrides overrides attributes) ↔ NamesThroughout P attributes := by
  obtain ⟨hnames, heach'⟩ := keepsNames_applyOverrides (P := P) overrides attributes
  constructor
  · intro h
    exact ⟨hnames ▸ h.names, heach⟩
  · intro h
    exact ⟨hnames ▸ h.names, heach' heach⟩

/-! ## Entries -/

namespace Source

variable {s : Source}

theorem arranged_of_providerNode_eq_ok {name target : String} {node : Node}
    (h : s.providerNode name target = .ok node) : node.Arranged := by
  unfold providerNode at h
  split at h
  · cases h
  · exact Schema.arranged_of_node_eq_ok h

theorem namesThroughout_provider (hP : HoldsOfArranged P) {c : ProviderConfiguration}
    {entry : ProviderEntry} (h : s.provider c = .ok entry) {attributes : List Attribute}
    (hattributes : entry.attributes = some attributes) : NamesThroughout P attributes := by
  obtain ⟨-, ⟨-, hnone⟩ | ⟨target, name, node, built, -, -, hnode, hbuilt, hsome⟩⟩ :=
    provider_eq_ok_iff.mp h
  · rw [hnone] at hattributes
    cases hattributes
  · rw [hsome] at hattributes
    cases hattributes
    exact namesThroughout_attributes hP (arranged_of_providerNode_eq_ok hnode) hbuilt

/-- What bodies contribute to a resource has names in order, and what its
parameters contribute has the names of arguments. -/
theorem names_resourceContributions (hP : HoldsOfArranged P) {c : ResourceConfiguration}
    {o : ResourceOperations} {primary : List Attribute} {others : List (List Attribute)}
    (h : s.resourceContributions c o = .ok (primary, others)) :
    NamesThroughout P primary ∧ ∃ bodies parameters, others = bodies ++ [parameters] ∧
      (∀ body ∈ bodies, NamesThroughout P body) ∧
        parameters.map Attribute.name = argumentNames c.schema o.read.parameters ∧
          ∀ a ∈ parameters, a.NamesBelow P := by
  obtain ⟨hprimary, bodies, parameters, hbodies, hparameters, rfl⟩ :=
    resourceContributions_eq_ok_iff.mp h
  refine ⟨namesThroughout_bodyAttributes hP hprimary, bodies, parameters, rfl, ?_,
    Builder.operationParameters_eq_ok hP hparameters⟩
  intro attributes hattributes
  obtain ⟨body, -, hbody⟩ := exists_of_mem_of_mapM_eq_ok hbodies hattributes
  exact namesThroughout_bodyAttributes hP hbody

/-- A response that is a list contributes an attribute under the identifier of
the name. -/
theorem namesThroughout_responseAttributes (hP : HoldsOfArranged P) {b : Builder} {name : String}
    (hname : P [Text.identifier name]) {node : Node} (harranged : node.Arranged)
    {attributes : List Attribute} (h : responseAttributes b name node = .ok attributes) :
    NamesThroughout P attributes := by
  unfold responseAttributes at h
  split at h
  · obtain ⟨a, ha, rfl⟩ := map_eq_ok_iff.mp h
    constructor
    · rw [List.map_singleton, name_attributeNamed ha]
      exact hname
    · intro a' ha'
      rw [List.mem_singleton] at ha'
      rw [ha']
      exact namesBelow_attributeNamed hP harranged ha
  · exact namesThroughout_attributes hP harranged h

/-- What the parameters of a data source contribute has the names of
arguments, and what its response contributes has names in order. -/
theorem names_dataSourceContributions (hP : HoldsOfArranged P) {name : String}
    (hname : P [Text.identifier name]) {c : DataSourceConfiguration} {o : ExploredOperation}
    {parameters response : List Attribute}
    (h : s.dataSourceContributions name c o = .ok (parameters, response)) :
    parameters.map Attribute.name = argumentNames c.schema o.parameters ∧
      (∀ a ∈ parameters, a.NamesBelow P) ∧ NamesThroughout P response := by
  obtain ⟨hparameters, schema, node, -, hnode, hresponse⟩ :=
    dataSourceContributions_eq_ok_iff.mp h
  obtain ⟨hnames, heach⟩ := Builder.operationParameters_eq_ok hP hparameters
  exact ⟨hnames, heach,
    namesThroughout_responseAttributes hP hname (Schema.arranged_of_node_eq_ok hnode) hresponse⟩

end Source

end ProviderSchema
