import ProviderSchema.Proofs.Assembly.Ignores
import ProviderSchema.Proofs.Attribute.StandsAt

/-!
# Ignored paths of data sources

Nothing stands at an ignored path of a data source, whether it would come from
a parameter, from a property of the response, or from a property further below.
There is one exception: a response that is a list becomes one attribute that
has the name of the data source, and this name is looked up nowhere
(`OnlyListAt`).

That is so for paths as `pathOf` writes them.  They are the names joined by dots
unless the first name is empty, and only an alias can be empty.
-/

namespace ProviderSchema

open OpenApi
open Attribute (StandsAt pathOf dottedPath isIgnored pruned prunedBelow)

/-! ## Contributions -/

namespace Builder

variable {b : Builder} {drop : List String → Bool}

theorem prunedBelow_eq_of_parameterAttribute
    (hdrop : ∀ path, drop path = true → pathOf path ∈ b.ignores) {role : ParameterRole}
    {name : String} {p : Parameter} {schema : Schema} {a : Attribute}
    (h : b.parameterAttribute role name p schema = .ok a) : prunedBelow drop [name] a = a := by
  obtain ⟨node, built, -, hbuilt, rfl⟩ := parameterAttribute_eq_ok_iff.mp h
  have hbelow : prunedBelow drop [name] built = built :=
    prunedBelow_eq_of_attributeNamed
      (b := { b with forced := (parameterComputability role p).1 }) hdrop hbuilt
  split
  · rw [Attribute.prunedBelow_mapTraits, hbelow]
  · exact hbelow

/-- Parameters contribute nothing at the paths that are ignored. -/
theorem pruned_eq_of_parameterAttributes
    (hdrop : ∀ path, drop path = true → pathOf path ∈ b.ignores) {role : ParameterRole}
    {options : SchemaOptions} (hoptions : options.ignores = b.ignores)
    {parameters : List Parameter} {attributes : List Attribute}
    (h : b.parameterAttributes role options parameters = .ok attributes) :
    pruned drop [] attributes = attributes := by
  induction parameters generalizing attributes with
  | nil =>
    cases h
    rfl
  | cons p rest ih =>
    rcases parameterAttributes_cons_eq_ok h with
      ⟨-, hlater⟩ | ⟨htakes, schema, a, later, -, ha, hlater, rfl⟩
    · exact ih hlater
    · have hname := name_parameterAttribute ha
      have hkeep : drop ([] ++ [a.name]) = false := by
        rw [SchemaOptions.takes, Bool.and_eq_true, Bool.and_eq_true, Bool.not_eq_true'] at htakes
        rw [List.nil_append, hname]
        refine Bool.eq_false_iff.mpr fun hdropped => ?_
        have hignored : parameterName options.attributes.aliases p ∈ options.ignores :=
          hoptions ▸ hdrop _ hdropped
        simp [hignored] at htakes
      rw [Attribute.pruned_cons_of_keep hkeep, ih hlater, List.nil_append, hname,
        prunedBelow_eq_of_parameterAttribute hdrop ha]

end Builder

/-- A response contributes nothing at the paths that are ignored, but for the
list that it may be. -/
theorem pruned_eq_of_responseAttributes {b : Builder} {drop : List String → Bool}
    (hdrop : ∀ path, drop path = true → pathOf path ∈ b.ignores) {name : String} {node : Node}
    (hlist : node.facts.kind = .array → drop [Text.identifier name] = false)
    {attributes : List Attribute} (h : Source.responseAttributes b name node = .ok attributes) :
    pruned drop [] attributes = attributes := by
  unfold Source.responseAttributes at h
  split at h
  · rename_i harray
    obtain ⟨a, ha, rfl⟩ := map_eq_ok_iff.mp h
    have hname := name_attributeNamed ha
    have hkeep : drop ([] ++ [a.name]) = false := by
      rw [List.nil_append, hname]
      exact hlist harray
    rw [Attribute.pruned_cons_of_keep hkeep, List.nil_append, hname,
      Builder.prunedBelow_eq_of_attributeNamed hdrop ha, pruned]
  · exact Builder.pruned_eq_of_attributes hdrop h

/-! ## Data sources -/

/-- At ignored paths nothing stands but the list that a response is, and that
does. -/
def OnlyListAt (write : List String → String) (ignores : List String) (name : String)
    (response : Node) (attributes : List Attribute) : Prop :=
  ∀ path, write path ∈ ignores →
    ((∃ a, StandsAt attributes path a) ↔
      response.facts.kind = .array ∧ path = [Text.identifier name])

/-- Whether a path is ignored, and not that of the list that a response is. -/
def leavesOut (ignores : List String) (name : String) (response : Node) (path : List String) :
    Bool :=
  isIgnored pathOf ignores path &&
    !(response.facts.kind = .array && path = [Text.identifier name])

theorem pathOf_mem_of_leavesOut {ignores : List String} {name : String} {response : Node}
    {path : List String} (h : leavesOut ignores name response path = true) :
    pathOf path ∈ ignores :=
  Attribute.isIgnored_iff.mp (Bool.and_eq_true_iff.mp h).1

theorem leavesOut_list {ignores : List String} {name : String} {response : Node}
    (h : response.facts.kind = .array) :
    leavesOut ignores name response [Text.identifier name] = false := by
  simp [leavesOut, h]

/-- The first name of a path decides whether all dots are written. -/
theorem pathOf_eq_dottedPath_of_standsAt {attributes : List Attribute}
    (hne : ∀ a ∈ attributes, a.name ≠ "") {path : List String} {a : Attribute}
    (h : StandsAt attributes path a) : pathOf path = dottedPath path := by
  cases h with
  | here h => rfl
  | inside h _ _ => exact Attribute.pathOf_cons_of_ne_empty (hne _ h) _

theorem OnlyListAt.dottedPath {ignores : List String} {name : String} {response : Node}
    {attributes : List Attribute} (h : OnlyListAt pathOf ignores name response attributes)
    (hne : ∀ a ∈ attributes, a.name ≠ "") :
    OnlyListAt dottedPath ignores name response attributes := by
  intro path hignored
  constructor
  · rintro ⟨a, ha⟩
    rw [← pathOf_eq_dottedPath_of_standsAt hne ha] at hignored
    exact (h path hignored).mp ⟨a, ha⟩
  · rintro ⟨harray, rfl⟩
    exact (h [Text.identifier name] hignored).mpr ⟨harray, rfl⟩

/-- An argument has the empty name only if it has the empty alias. -/
theorem ne_empty_of_mem_argumentNames {options : SchemaOptions} {parameters : List Parameter}
    (h : "" ∉ usedAliases options parameters) :
    ∀ name ∈ argumentNames options parameters, name ≠ "" := by
  intro name hname
  obtain ⟨p, hp, rfl⟩ := List.mem_map.mp hname
  rw [parameterName_eq_getD_alias?]
  cases halias : options.alias? p with
  | none => exact Text.ne_empty_of_isIdentifier (Text.isIdentifier_identifier p.name)
  | some found =>
    rintro rfl
    exact h (List.mem_filterMap.mpr ⟨p, hp, halias⟩)

namespace Source

variable {s : Source} {name : String} {c : DataSourceConfiguration} {o : ExploredOperation}
  {parameters response : List Attribute}

/-- There is nothing to leave out of what parameters and a response contribute,
merged and with descriptions replaced. -/
theorem pruned_leavesOut_eq
    (hparameters : (s.entryBuilder .dataSource c.schema).operationParameters .argument c.schema o =
      .ok parameters) {node : Node}
    (hresponse : responseAttributes { s.entryBuilder .dataSource c.schema with
      forced := some .computed } name node = .ok response) :
    pruned (leavesOut c.schema.ignores name node) []
        (applyOverrides c.schema.attributes.overrides (mergeAttributes parameters [response])) =
      applyOverrides c.schema.attributes.overrides (mergeAttributes parameters [response]) := by
  have hprunedParameters : pruned (leavesOut c.schema.ignores name node) [] parameters =
      parameters :=
    Builder.pruned_eq_of_parameterAttributes (b := s.entryBuilder .dataSource c.schema)
      (fun _ => pathOf_mem_of_leavesOut) rfl (mapError_eq_ok_iff.mp hparameters)
  have hprunedResponse : pruned (leavesOut c.schema.ignores name node) [] response = response :=
    pruned_eq_of_responseAttributes (fun _ => pathOf_mem_of_leavesOut) leavesOut_list hresponse
  rw [pruned_applyOverrides, Attribute.pruned_mergeAttributes, hprunedParameters,
    List.map_singleton, hprunedResponse]

/-- The names of a data source are those of its parameters and of its response. -/
theorem mem_map_name_applyOverrides_iff {overrides : List (String × AttributeOverride)}
    {key : String} :
    key ∈ (applyOverrides overrides (mergeAttributes parameters [response])).map Attribute.name ↔
      key ∈ parameters.map Attribute.name ∨ key ∈ response.map Attribute.name := by
  rw [(keepsNames_applyOverrides (P := AllIdentifiers) _ _).1, mem_map_name_mergeAttributes]
  simp

/-- A list is there, under the name of the data source. -/
theorem exists_standsAt_list {b : Builder} {node : Node}
    (hresponse : responseAttributes b name node = .ok response)
    (harray : node.facts.kind = .array) (overrides : List (String × AttributeOverride)) :
    ∃ a, StandsAt (applyOverrides overrides (mergeAttributes parameters [response]))
      [Text.identifier name] a := by
  unfold responseAttributes at hresponse
  rw [if_pos harray] at hresponse
  obtain ⟨list, hlist, rfl⟩ := map_eq_ok_iff.mp hresponse
  have hmem : Text.identifier name ∈
      (applyOverrides overrides (mergeAttributes parameters [[list]])).map Attribute.name := by
    rw [mem_map_name_applyOverrides_iff, ← name_attributeNamed hlist]
    exact .inr (List.mem_map_of_mem List.mem_cons_self)
  obtain ⟨a, ha, hname⟩ := List.mem_map.mp hmem
  exact ⟨a, hname ▸ .here ha⟩

theorem onlyListAt_pathOf
    (hparameters : (s.entryBuilder .dataSource c.schema).operationParameters .argument c.schema o =
      .ok parameters) {node : Node}
    (hresponse : responseAttributes { s.entryBuilder .dataSource c.schema with
      forced := some .computed } name node = .ok response) :
    OnlyListAt pathOf c.schema.ignores name node
      (applyOverrides c.schema.attributes.overrides (mergeAttributes parameters [response])) := by
  intro path hignored
  constructor
  · rintro ⟨a, ha⟩
    have hkeep : leavesOut c.schema.ignores name node path = false :=
      Attribute.drop_eq_false_of_standsAt (pruned_leavesOut_eq hparameters hresponse) ha
    simpa [leavesOut, Attribute.isIgnored_iff.mpr hignored] using hkeep
  · rintro ⟨harray, rfl⟩
    exact exists_standsAt_list hresponse harray _

theorem ne_empty_of_dataSourceContributions
    (h : s.dataSourceContributions name c o = .ok (parameters, response))
    (haliases : "" ∉ usedAliases c.schema o.parameters) :
    ∀ a ∈ applyOverrides c.schema.attributes.overrides (mergeAttributes parameters [response]),
      a.name ≠ "" := by
  obtain ⟨hnames, -, hresponse⟩ := names_dataSourceContributions holdsOfArranged_allIdentifiers
    (allIdentifiers_singleton_identifier name) h
  intro a ha
  rcases mem_map_name_applyOverrides_iff.mp (List.mem_map_of_mem ha) with hname | hname
  · rw [hnames] at hname
    exact ne_empty_of_mem_argumentNames haliases _ hname
  · exact Text.ne_empty_of_isIdentifier (hresponse.names _ hname)

end Source

/-! ## All data sources -/

/-- Of every data source that is generated, there is nothing at ignored paths
but the list that its response may be; and if no alias that is used is empty,
paths are the names joined by dots. -/
theorem onlyListAt_of_generate_eq_ok {d : Description} {c : Configuration}
    {lines : Option LineIndex} {g : Generated} (h : generate d c lines = .ok g) :
    ∀ e ∈ g.specification.dataSources, ∃ config o schema node, (e.name, config) ∈ c.dataSources ∧
      (Source.ofDescription d lines).operation e.name "read" config.read = .ok o ∧
        o.responseSchema = .ok schema ∧ schema.node = .ok node ∧
          OnlyListAt pathOf config.schema.ignores e.name node e.attributes ∧
            ("" ∉ usedAliases config.schema o.parameters →
              OnlyListAt dottedPath config.schema.ignores e.name node e.attributes) := by
  intro e he
  obtain ⟨config, hconfig, hattributes⟩ := exists_dataSource_eq_ok_of_generate_eq_ok h he
  obtain ⟨o, parameters, response, ho, hcontributions, heq⟩ :=
    Source.dataSource_eq_ok_iff.mp hattributes
  obtain ⟨hparameters, schema, node, hschema, hnode, hresponse⟩ :=
    Source.dataSourceContributions_eq_ok_iff.mp hcontributions
  have hlist := Source.onlyListAt_pathOf hparameters hresponse
  refine ⟨config, o, schema, node, hconfig, ho, hschema, hnode, ?_, ?_⟩
  · rw [heq]
    exact hlist
  · intro haliases
    rw [heq]
    exact hlist.dottedPath (Source.ne_empty_of_dataSourceContributions hcontributions haliases)

/-! ## A response that is a list -/

/-- Books are listed in pages. -/
def listBooks : Operation where
  parameters := ["limit", "page"].map fun name =>
    .inline { name, place := .query, schema := some textSchema }
  responses := [("200", .inline { content := [("application/json",
    { schema := some (.inline { type := some (.single .array) }
        { items := some (.schema (objectOfTexts ["isbn", "title"])) }) })] })]

/-- A description of books, which can only be listed. -/
def shelfDescription : Description where
  openapi := "3.0.0"
  info := { title := "Books", version := "1" }
  paths := [("/books", { get := some listBooks })]

/-- A configuration that ignores the books, a part of them and a parameter. -/
def shelfConfiguration : Configuration where
  provider := { name := "library" }
  dataSources := [("books", {
    read := some ⟨"/books", "GET"⟩
    schema := { ignores := ["books", "books.isbn", "page"] } })]

/-- Of the ignored paths the page is left out, and so is a part of the books,
but not the books themselves. -/
theorem exists_generate_shelf :
    ∃ g, generate shelfDescription shelfConfiguration none = .ok g ∧
      ∃ e ∈ g.specification.dataSources, e.name = "books" ∧
        nameTree e.attributes = [("limit", []), ("books", ["title"])] ∧
          ∃ a, StandsAt e.attributes ["books"] a := by
  obtain ⟨g, hg, hnames⟩ := exists_ok_of_toOption_map_eq_some
    (show (generate shelfDescription shelfConfiguration none).toOption.map (fun g =>
        g.specification.dataSources.map fun e => (e.name, nameTree e.attributes)) =
      some [("books", [("limit", []), ("books", ["title"])])] by decide +kernel)
  obtain ⟨e, he, htree⟩ := List.map_eq_singleton_iff.mp hnames
  obtain ⟨hname, htree⟩ := Prod.mk.inj htree
  have hmem : e ∈ g.specification.dataSources := by
    rw [he]
    exact List.mem_cons_self
  have hbooks : ("books", ["title"]) ∈ nameTree e.attributes := by
    rw [htree]
    exact List.mem_cons_of_mem _ List.mem_cons_self
  obtain ⟨a, ha, heq⟩ := List.mem_map.mp hbooks
  have hstands : StandsAt e.attributes [a.name] a := .here ha
  rw [(Prod.mk.inj heq).1] at hstands
  exact ⟨g, hg, e, hmem, hname, htree, a, hstands⟩

/-- Of the ignored paths only that of the books has an attribute. -/
theorem onlyListAt_generate_shelf :
    ∃ g, generate shelfDescription shelfConfiguration none = .ok g ∧
      ∃ e ∈ g.specification.dataSources,
        nameTree e.attributes = [("limit", []), ("books", ["title"])] ∧
          ∃ node : Node, node.facts.kind = .array ∧
            OnlyListAt dottedPath ["books", "books.isbn", "page"] "books" node e.attributes := by
  obtain ⟨g, hg, e, he, hname, htree, hstands⟩ := exists_generate_shelf
  obtain ⟨config, o, schema, node, hconfig, -, -, -, -, honly⟩ :=
    onlyListAt_of_generate_eq_ok hg e he
  obtain ⟨-, rfl⟩ := Prod.mk.inj (List.mem_singleton.mp hconfig)
  rw [hname] at honly
  have hdotted := honly (by simp [usedAliases, SchemaOptions.alias?, Table.get?])
  have harray := ((hdotted ["books"] List.mem_cons_self).mp hstands).1
  exact ⟨g, hg, e, he, htree, node, harray, hdotted⟩

/-- Not all that stands in a data source is at a path that is not ignored. -/
theorem not_forall_standsAt_notMem_ignores :
    ¬ ∀ (d : Description) (c : Configuration) lines g, generate d c lines = .ok g →
      ∀ e ∈ g.specification.dataSources, ∃ config, (e.name, config) ∈ c.dataSources ∧
        ∀ path a, StandsAt e.attributes path a → dottedPath path ∉ config.schema.ignores := by
  intro h
  obtain ⟨g, hg, e, he, -, -, a, hstands⟩ := exists_generate_shelf
  obtain ⟨config, hconfig, hnone⟩ := h shelfDescription shelfConfiguration none g hg e he
  obtain ⟨-, rfl⟩ := Prod.mk.inj (List.mem_singleton.mp hconfig)
  exact hnone ["books"] a hstands List.mem_cons_self

end ProviderSchema
