import ProviderSchema.Assembly.Generation
import ProviderSchema.Configuration.Loading
import ProviderSchema.Proofs.OpenApi.ReferenceName

/-!
# Valid configurations

What a configuration has to meet is a list of requirements, and what is said
about an invalid configuration is one problem for each requirement that is not
met (`problems_eq_unmet`).  `WellFormed` is the same condition told by the parts
of a configuration.

The generation reads a configuration by other means than the check does: it takes
the name out of the schema reference, reads the methods and looks the operations
up.  On a well-formed configuration none of these fails
(`name_of_schemaReference`, `explore_eq_error`), so whatever fails then, fails
because of the description.  `checkedLaw` puts the two together.
-/

namespace ProviderSchema

open OpenApi

namespace Configuration

theorem startsWith_iff {start text : String} :
    startsWith start text = true ↔ ∃ rest, text = start ++ rest := by
  unfold startsWith
  rw [List.isPrefixOf_iff_prefix]
  constructor
  · rintro ⟨rest, hrest⟩
    refine ⟨String.ofList rest, ?_⟩
    rw [← String.toList_inj, String.toList_append, String.toList_ofList, hrest]
  · rintro ⟨rest, rfl⟩
    exact ⟨rest.toList, (String.toList_append).symm⟩

/-! ## Requirements -/

/-- What a configuration has to meet.  An owner is a resource or a data source
as messages name it, and a field is the role of one of its operations. -/
inductive Requirement where
  | providerName (name : String)
  | schemaReference (target : String)
  | entryName (owner name : String)
  | operation (owner field : String) (o : Option OperationTarget)
  | path (owner field : String) (o : OperationTarget)
  | method (owner field : String) (o : OperationTarget)

namespace Requirement

/-- Whether a requirement is met. -/
def Met : Requirement → Prop
  | .providerName name => Text.isIdentifier name = true
  | .schemaReference target => ∃ name, target = schemaReferenceStart ++ name
  | .entryName _ name => Text.isIdentifier name = true
  | .operation _ _ o => ∃ target, o = some target
  | .path _ _ o => ∃ rest, o.path = "/" ++ rest
  | .method _ _ o => ∃ m, Method.ofName? o.method = some m

instance : DecidablePred Met
  | .providerName name => inferInstanceAs (Decidable (Text.isIdentifier name = true))
  | .schemaReference _ => decidable_of_iff _ startsWith_iff
  | .entryName _ name => inferInstanceAs (Decidable (Text.isIdentifier name = true))
  | .operation _ _ _ => decidable_of_iff _ Option.isSome_iff_exists
  | .path _ _ _ => decidable_of_iff _ startsWith_iff
  | .method _ _ _ => decidable_of_iff _ Option.isSome_iff_exists

/-- What is said about a requirement that is not met. -/
def problem : Requirement → String
  | .providerName name =>
    if name = "" then "provider.name is required"
    else "provider.name '" ++ name ++ "' must match [a-z_][a-z0-9_]*"
  | .schemaReference target =>
    "provider.schema_ref '" ++ target ++ "' must start with '" ++ schemaReferenceStart ++ "'"
  | .entryName owner _ => owner ++ ": name must match [a-z_][a-z0-9_]*"
  | .operation owner field _ => owner ++ ": missing '" ++ field ++ "' operation"
  | .path owner field o =>
    owner ++ "." ++ field ++ ": " ++ "path '" ++ o.path ++ "' must start with '/'"
  | .method owner field o => owner ++ "." ++ field ++ ": " ++ Method.unknown o.method

end Requirement

/-- The requirements of an operation that may be missing. -/
def optionalRequirements (owner field : String) (o : Option OperationTarget) :
    List Requirement :=
  o.toList.flatMap fun o => [.path owner field o, .method owner field o]

/-- The requirements of an operation that must be there. -/
def requiredRequirements (owner field : String) (o : Option OperationTarget) :
    List Requirement :=
  .operation owner field o :: optionalRequirements owner field o

/-- All that a resource has to meet: a name, two operations it must have, and two it may
have. -/
def resourceRequirements (name : String) (r : ResourceConfiguration) : List Requirement :=
  let owner := "resources." ++ name
  .entryName owner name ::
    (requiredRequirements owner "create" r.create ++ requiredRequirements owner "read" r.read
      ++ optionalRequirements owner "update" r.update
      ++ optionalRequirements owner "delete" r.delete)

/-- All that a data source has to meet: a name and an operation to read it. -/
def dataSourceRequirements (name : String) (d : DataSourceConfiguration) : List Requirement :=
  let owner := "data_sources." ++ name
  .entryName owner name :: requiredRequirements owner "read" d.read

/-- All that a configuration has to meet. -/
def requirements (c : Configuration) : List Requirement :=
  .providerName c.provider.name ::
    (c.provider.schemaReference.toList.map .schemaReference
      ++ (c.resources.flatMap fun (name, r) => resourceRequirements name r)
      ++ c.dataSources.flatMap fun (name, d) => dataSourceRequirements name d)

/-! ## One problem for each requirement that is not met -/

/-- What is said about requirements: one problem for each that is not met. -/
def unmet (requirements : List Requirement) : List String :=
  (requirements.filter fun r => ¬ r.Met).map Requirement.problem

theorem unmet_cons (r : Requirement) (rest : List Requirement) :
    unmet (r :: rest) = unmet [r] ++ unmet rest := by
  by_cases h : r.Met <;> simp [unmet, h]

theorem unmet_singleton {r : Requirement} {p : Prop} [Decidable p] (h : r.Met ↔ p) :
    unmet [r] = if p then [] else [r.problem] := by
  by_cases hp : p <;> simp [unmet, h, hp]

@[simp] theorem unmet_append (l l' : List Requirement) :
    unmet (l ++ l') = unmet l ++ unmet l' := by
  simp [unmet]

theorem unmet_flatMap {α : Type} (l : List α) (f : α → List Requirement) :
    unmet (l.flatMap f) = l.flatMap fun a => unmet (f a) := by
  induction l with
  | nil => rfl
  | cons a rest ih => rw [List.flatMap_cons, unmet_append, ih, List.flatMap_cons]

theorem unmet_eq_nil_iff {requirements : List Requirement} :
    unmet requirements = [] ↔ ∀ r ∈ requirements, r.Met := by
  simp [unmet]

theorem unmet_optionalRequirements (owner field : String) (o : Option OperationTarget) :
    unmet (optionalRequirements owner field o) = optionalProblems owner field o := by
  cases o with
  | none => rfl
  | some o =>
    have hpath : unmet [.path owner field o] =
        if startsWith "/" o.path then []
          else [owner ++ "." ++ field ++ ": " ++ "path '" ++ o.path ++ "' must start with '/'"] :=
      unmet_singleton startsWith_iff.symm
    have hmethod : unmet [.method owner field o] =
        if (Method.ofName? o.method).isSome then []
          else [owner ++ "." ++ field ++ ": " ++ Method.unknown o.method] :=
      unmet_singleton Option.isSome_iff_exists.symm
    have hboth : optionalRequirements owner field (some o) =
        [.path owner field o, .method owner field o] := rfl
    rw [hboth, unmet_cons, hpath, hmethod]
    unfold optionalProblems operationProblems
    dsimp only
    cases Method.ofName? o.method with
    | none => rfl
    | some m => rfl

theorem unmet_requiredRequirements (owner field : String) (o : Option OperationTarget) :
    unmet (requiredRequirements owner field o) = requiredProblems owner field o := by
  have hthere : unmet [.operation owner field o] =
      if o.isSome then [] else [owner ++ ": missing '" ++ field ++ "' operation"] :=
    unmet_singleton Option.isSome_iff_exists.symm
  rw [requiredRequirements, unmet_cons, hthere, unmet_optionalRequirements]
  cases o with
  | none => rfl
  | some o => rfl

theorem unmet_entryName (owner name : String) :
    unmet [.entryName owner name] = nameProblems owner name :=
  unmet_singleton Iff.rfl

theorem unmet_resourceRequirements (name : String) (r : ResourceConfiguration) :
    unmet (resourceRequirements name r) = resourceProblems name r := by
  unfold resourceRequirements resourceProblems
  dsimp only
  rw [unmet_cons, unmet_entryName]
  simp only [unmet_append, unmet_requiredRequirements, unmet_optionalRequirements,
    List.append_assoc]

theorem unmet_dataSourceRequirements (name : String) (d : DataSourceConfiguration) :
    unmet (dataSourceRequirements name d) = dataSourceProblems name d := by
  unfold dataSourceRequirements dataSourceProblems
  dsimp only
  rw [unmet_cons, unmet_entryName, unmet_requiredRequirements]

theorem unmet_providerName (name : String) :
    unmet [.providerName name] = providerNameProblems name := by
  have hmet : unmet [.providerName name] =
      if Text.isIdentifier name then [] else [(Requirement.providerName name).problem] :=
    unmet_singleton Iff.rfl
  rw [hmet]
  unfold providerNameProblems Requirement.problem
  by_cases hempty : name = ""
  · -- No name is no identifier either.
    have hno : Text.isIdentifier "" = false := by decide
    simp only [hempty, hno, if_true, Bool.false_eq_true, if_false]
  · simp only [hempty, if_false]

theorem unmet_schemaReference (target : Option String) :
    unmet (target.toList.map .schemaReference) = schemaReferenceProblems target := by
  cases target with
  | none => rfl
  | some target => exact unmet_singleton startsWith_iff.symm

/-- There is one problem for each requirement that is not met, in the order of
the requirements. -/
theorem problems_eq_unmet (c : Configuration) : c.problems = unmet c.requirements := by
  unfold problems requirements
  rw [unmet_cons, unmet_providerName, unmet_append, unmet_append, unmet_schemaReference,
    unmet_flatMap, unmet_flatMap]
  simp only [unmet_resourceRequirements, unmet_dataSourceRequirements, List.append_assoc]

/-! ## Well-formed configurations -/

/-- An operation that can be meant. -/
structure WellFormedTarget (o : OperationTarget) : Prop where
  path : ∃ rest, o.path = "/" ++ rest
  method : ∃ m, Method.ofName? o.method = some m

/-- A resource with a name and the operations it must have, all of them written as they
have to be. -/
structure WellFormedResource (name : String) (r : ResourceConfiguration) : Prop where
  name : Text.isIdentifier name = true
  create : ∃ o, r.create = some o
  read : ∃ o, r.read = some o
  operations : ∀ o, r.create = some o ∨ r.read = some o ∨ r.update = some o ∨ r.delete = some o →
    WellFormedTarget o

/-- A data source with a name and an operation to read it, written as they have to be. -/
structure WellFormedDataSource (name : String) (d : DataSourceConfiguration) : Prop where
  name : Text.isIdentifier name = true
  read : ∃ o, d.read = some o
  operations : ∀ o, d.read = some o → WellFormedTarget o

/-- A configuration whose names, references and operations are written as they
have to be. -/
structure WellFormed (c : Configuration) : Prop where
  providerName : Text.isIdentifier c.provider.name = true
  schemaReference : ∀ target, c.provider.schemaReference = some target →
    ∃ name, target = "#/components/schemas/" ++ name
  resources : ∀ name r, (name, r) ∈ c.resources → WellFormedResource name r
  dataSources : ∀ name d, (name, d) ∈ c.dataSources → WellFormedDataSource name d

theorem forall_met_optionalRequirements {owner field : String} {o : Option OperationTarget} :
    (∀ r ∈ optionalRequirements owner field o, r.Met) ↔
      ∀ target, o = some target → WellFormedTarget target := by
  cases o with
  | none => simp [optionalRequirements]
  | some o =>
    simp only [optionalRequirements, Option.toList_some, List.flatMap_cons, List.flatMap_nil,
      List.append_nil, List.forall_mem_cons, List.not_mem_nil, false_implies, implies_true,
      and_true, Option.some.injEq, forall_eq']
    exact ⟨fun h => ⟨h.1, h.2⟩, fun h => ⟨h.path, h.method⟩⟩

theorem forall_met_requiredRequirements {owner field : String} {o : Option OperationTarget} :
    (∀ r ∈ requiredRequirements owner field o, r.Met) ↔
      (∃ target, o = some target) ∧ ∀ target, o = some target → WellFormedTarget target := by
  rw [requiredRequirements, List.forall_mem_cons, forall_met_optionalRequirements]
  rfl

theorem forall_met_resourceRequirements {name : String} {r : ResourceConfiguration} :
    (∀ q ∈ resourceRequirements name r, q.Met) ↔ WellFormedResource name r := by
  unfold resourceRequirements
  simp only [List.forall_mem_cons, List.forall_mem_append, forall_met_requiredRequirements,
    forall_met_optionalRequirements]
  constructor
  · rintro ⟨hname, ⟨⟨⟨hcreate, hcreate'⟩, hread, hread'⟩, hupdate⟩, hdelete⟩
    refine ⟨hname, hcreate, hread, ?_⟩
    rintro o (h | h | h | h)
    · exact hcreate' o h
    · exact hread' o h
    · exact hupdate o h
    · exact hdelete o h
  · intro h
    exact ⟨h.name, ⟨⟨⟨h.create, fun o ho => h.operations o (.inl ho)⟩,
      h.read, fun o ho => h.operations o (.inr (.inl ho))⟩,
      fun o ho => h.operations o (.inr (.inr (.inl ho)))⟩,
      fun o ho => h.operations o (.inr (.inr (.inr ho)))⟩

theorem forall_met_dataSourceRequirements {name : String} {d : DataSourceConfiguration} :
    (∀ q ∈ dataSourceRequirements name d, q.Met) ↔ WellFormedDataSource name d := by
  unfold dataSourceRequirements
  simp only [List.forall_mem_cons, forall_met_requiredRequirements]
  exact ⟨fun ⟨hname, hread, htarget⟩ => ⟨hname, hread, htarget⟩,
    fun h => ⟨h.name, h.read, h.operations⟩⟩

/-- The requirements of a configuration say that it is well-formed. -/
theorem forall_met_requirements {c : Configuration} :
    (∀ r ∈ c.requirements, r.Met) ↔ c.WellFormed := by
  have hreference : (∀ r ∈ c.provider.schemaReference.toList.map Requirement.schemaReference,
      r.Met) ↔ ∀ target, c.provider.schemaReference = some target →
        ∃ name, target = "#/components/schemas/" ++ name := by
    cases c.provider.schemaReference with
    | none => simp
    | some target => simp [Requirement.Met, schemaReferenceStart]
  unfold requirements
  simp only [List.forall_mem_cons, List.forall_mem_append, hreference, List.forall_mem_flatMap,
    Prod.forall, forall_met_resourceRequirements, forall_met_dataSourceRequirements]
  exact ⟨fun ⟨hname, ⟨htarget, hresources⟩, hdataSources⟩ =>
      ⟨hname, htarget, hresources, hdataSources⟩,
    fun h => ⟨h.providerName, ⟨h.schemaReference, h.resources⟩, h.dataSources⟩⟩

theorem isValid_iff {c : Configuration} : c.isValid = true ↔ c.WellFormed := by
  unfold isValid
  rw [List.isEmpty_iff, problems_eq_unmet, unmet_eq_nil_iff, forall_met_requirements]

/-! ## What fails on a well-formed configuration -/

section Generation

variable {s : Source}

/-- A reference that is written as it has to be has a name. -/
theorem name_of_schemaReference {target : String}
    (h : ∃ name, target = "#/components/schemas/" ++ name) :
    ∃ name, Reference.name "schemas" target = .ok name := by
  obtain ⟨name, rfl⟩ := h
  have hstart : "#/components/" ++ "schemas" ++ "/" = "#/components/schemas/" := by decide
  have htext : Reference.text "schemas" name = "#/components/schemas/" ++ name :=
    congrArg (· ++ name) hstart
  exact ⟨name, (Reference.name_eq_ok_iff (by decide)).mpr htext.symm⟩

/-- The provider then fails because of its schema. -/
theorem provider_eq_error {c : ProviderConfiguration} {e : GenerationError}
    (h : ∀ target, c.schemaReference = some target →
      ∃ name, target = "#/components/schemas/" ++ name)
    (herror : s.provider c = .error e) : ∃ e', e = .provider e' := by
  unfold Source.provider at herror
  split at herror
  · cases herror
  · rename_i target htarget
    obtain ⟨name, hname⟩ := name_of_schemaReference (h target htarget)
    rw [hname] at herror
    dsimp only at herror
    split at herror
    · cases herror
      exact ⟨_, rfl⟩
    · cases herror

/-- An operation is not found because the description does not have it. -/
inductive LacksOperation : ExplorationError → Prop where
  | path (path : String) : LacksOperation (.pathNotFound path)
  | operation (method : Method) (path : String) : LacksOperation (.operationNotFound method path)
  | parameter (target : String) : LacksOperation (.unresolvedParameter target)

theorem inlineParameters_eq_error {parameters : List (OrReference Parameter)}
    {e : ExplorationError} (h : inlineParameters parameters = .error e) :
    ∃ target, e = .unresolvedParameter target := by
  induction parameters with
  | nil => cases h
  | cons p rest ih =>
    cases p with
    | reference target =>
      cases h
      exact ⟨target, rfl⟩
    | inline p =>
      rw [inlineParameters] at h
      split at h
      · rename_i hrest
        cases h
        exact ih hrest
      · cases h

theorem explore_eq_error {d : Description} {target : OperationTarget} {e : ExplorationError}
    (hmethod : ∃ m, Method.ofName? target.method = some m)
    (h : d.explore target = .error e) : LacksOperation e := by
  obtain ⟨m, hm⟩ := hmethod
  unfold Description.explore at h
  rw [hm] at h
  dsimp only at h
  split at h
  · cases h
    exact .path _
  split at h
  · cases h
    exact .operation _ _
  split at h
  · rename_i hshared
    cases h
    obtain ⟨t, rfl⟩ := inlineParameters_eq_error hshared
    exact .parameter t
  split at h
  · rename_i hown
    cases h
    obtain ⟨t, rfl⟩ := inlineParameters_eq_error hown
    exact .parameter t
  · cases h

theorem operation_eq_error {owner field : String} {o : Option OperationTarget}
    {e : ExplorationError} (hthere : ∃ target, o = some target)
    (hwell : ∀ target, o = some target → WellFormedTarget target)
    (h : s.operation owner field o = .error e) : LacksOperation e := by
  obtain ⟨target, rfl⟩ := hthere
  exact explore_eq_error (hwell target rfl).method h

theorem operation?_eq_error {o : Option OperationTarget} {e : ExplorationError}
    (hwell : ∀ target, o = some target → WellFormedTarget target)
    (h : s.operation? o = .error e) : LacksOperation e := by
  cases o with
  | none => cases h
  | some target =>
    unfold Source.operation? at h
    dsimp only at h
    cases hexplore : s.description.explore target with
    | ok found =>
      rw [hexplore] at h
      cases h
    | error e' =>
      rw [hexplore] at h
      cases h
      exact explore_eq_error (hwell target rfl).method hexplore

/-- An entry fails because of what the description says: it lacks an operation,
or one of the schemas is no good. -/
def BlamesDescription (e : GenerationError) : Prop :=
  (∃ e', e = .exploration e' ∧ LacksOperation e') ∨ ∃ e', e = .schema e'

theorem resource_eq_error {name : String} {r : ResourceConfiguration} {e : GenerationError}
    (hwell : WellFormedResource name r) (h : s.resource name r = .error e) :
    BlamesDescription e := by
  unfold Source.resource at h
  split at h
  · rename_i e' hoperations
    cases h
    refine .inl ⟨e', rfl, ?_⟩
    unfold Source.resourceOperations at hoperations
    split at hoperations
    · rename_i hcreate
      cases hoperations
      exact operation_eq_error hwell.create (fun o ho => hwell.operations o (.inl ho)) hcreate
    split at hoperations
    · rename_i hread
      cases hoperations
      exact operation_eq_error hwell.read (fun o ho => hwell.operations o (.inr (.inl ho))) hread
    split at hoperations
    · rename_i hupdate
      cases hoperations
      exact operation?_eq_error (fun o ho => hwell.operations o (.inr (.inr (.inl ho)))) hupdate
    · cases hoperations
  split at h
  · cases h
    exact .inr ⟨_, rfl⟩
  · cases h

theorem dataSource_eq_error {name : String} {c : DataSourceConfiguration} {e : GenerationError}
    (hwell : WellFormedDataSource name c) (h : s.dataSource name c = .error e) :
    BlamesDescription e := by
  unfold Source.dataSource at h
  split at h
  · rename_i e' hread
    cases h
    exact .inl ⟨e', rfl, operation_eq_error hwell.read hwell.operations hread⟩
  split at h
  · cases h
    exact .inr ⟨_, rfl⟩
  · cases h

/-- What is skipped has an error of its own. -/
theorem mem_skipped_generateEntries {α : Type} {kind : EntryKind}
    {attributes : String → α → Except GenerationError (List Attribute)}
    {configs : List (String × α)} {skipped : Skipped}
    (h : skipped ∈ (generateEntries kind attributes configs).2) :
    ∃ config, (skipped.name, config) ∈ configs ∧
      attributes skipped.name config = .error skipped.error := by
  induction configs with
  | nil => cases h
  | cons entry rest ih =>
    obtain ⟨name, config⟩ := entry
    rw [generateEntries] at h
    dsimp only at h
    cases hbuilt : attributes name config with
    | ok built =>
      rw [hbuilt] at h
      obtain ⟨config', hmem, herror⟩ := ih h
      exact ⟨config', List.mem_cons_of_mem _ hmem, herror⟩
    | error e =>
      rw [hbuilt] at h
      rcases List.mem_cons.mp h with rfl | h
      · exact ⟨config, List.mem_cons_self, hbuilt⟩
      · obtain ⟨config', hmem, herror⟩ := ih h
        exact ⟨config', List.mem_cons_of_mem _ hmem, herror⟩

/-- Whatever fails in a generation fails because of the description. -/
structure FailsForDescription (result : Except GenerationError Generated) : Prop where
  provider : ∀ e, result = .error e → ∃ e', e = .provider e'
  entries : ∀ g, result = .ok g → ∀ skipped ∈ g.skipped, BlamesDescription skipped.error

theorem WellFormed.failsForDescription {c : Configuration} (hwell : c.WellFormed)
    (d : Description) (lines : Option LineIndex) : FailsForDescription (generate d c lines) := by
  unfold generate
  dsimp only
  split
  · rename_i e hprovider
    refine ⟨?_, ?_⟩
    · intro e' he'
      cases he'
      exact provider_eq_error hwell.schemaReference hprovider
    · intro g hg
      cases hg
  · refine ⟨?_, ?_⟩
    · intro e he
      cases he
    intro g hg skipped hskipped
    cases hg
    rcases List.mem_append.mp hskipped with hmem | hmem
    · obtain ⟨r, hr, herror⟩ := mem_skipped_generateEntries hmem
      exact resource_eq_error (hwell.resources _ r hr) herror
    · obtain ⟨r, hr, herror⟩ := mem_skipped_generateEntries hmem
      exact dataSource_eq_error (hwell.dataSources _ r hr) herror

end Generation

/-! ## The law of checking -/

/-- What the check of a configuration says, and what it is good for. -/
structure CheckedLaw (c : Configuration) : Prop where
  /-- A configuration is accepted exactly if it is well-formed. -/
  accepted : c.checked = .ok c ↔ c.WellFormed
  /-- Otherwise there is one problem for each requirement that is not met. -/
  rejected : ¬ c.WellFormed → c.checked =
    .error (.invalid ((c.requirements.filter fun r => ¬ r.Met).map Requirement.problem))
  /-- A requirement that is not met is what keeps a configuration from being well-formed. -/
  requirements : c.WellFormed ↔ ∀ r ∈ c.requirements, r.Met
  /-- Whatever fails on an accepted configuration fails because of the description. -/
  generated : c.checked = .ok c → ∀ d lines, FailsForDescription (generate d c lines)

theorem checked_eq_ok_iff {c : Configuration} : c.checked = .ok c ↔ c.isValid = true := by
  unfold checked
  by_cases h : c.isValid = true
  · simp [h]
  · simp [h]

/-- The check accepts the well-formed configurations and tells every problem of
the others, and a configuration that it accepts never makes the generation fail. -/
theorem checkedLaw (c : Configuration) : CheckedLaw c := by
  have haccepted : c.checked = .ok c ↔ c.WellFormed := checked_eq_ok_iff.trans isValid_iff
  refine ⟨haccepted, ?_, forall_met_requirements.symm, ?_⟩
  · intro hwell
    rw [checked, if_neg (by rwa [isValid_iff]), problems_eq_unmet, unmet]
  · intro h d lines
    exact (haccepted.mp h).failsForDescription d lines

end Configuration

end ProviderSchema
