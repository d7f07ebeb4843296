import ProviderSchema.Proofs.Assembly.Success
import ProviderSchema.Proofs.OpenApi.Footprint

/-!
# Entries do not affect each other

What becomes of a resource or a data source depends on the paths of its
operations and on the components that references lead to from there
(`Source.outcome_congr`).  Neither the other entries of the configuration nor
anything else in the description counts, so a definition that is broken
somewhere else neither changes an entry nor has it skipped
(`isolated_of_generate_eq_ok`).

What is generated and what is skipped are together all entries, in the order
in which they are configured.
-/

namespace ProviderSchema

open OpenApi

/-! ## Entries -/

/-- A resource or a data source that is asked for. -/
inductive Entry where
  | resource (name : String) (config : ResourceConfiguration)
  | dataSource (name : String) (config : DataSourceConfiguration)

namespace Entry

/-- What tells an entry from all others. -/
def label : Entry → EntryKind × String
  | .resource name _ => (.resource, name)
  | .dataSource name _ => (.dataSource, name)

/-- The operations that an entry is made of. -/
def targets : Entry → List OperationTarget
  | .resource _ c => c.create.toList ++ c.read.toList ++ c.update.toList
  | .dataSource _ c => c.read.toList

/-- The paths of the operations that an entry is made of. -/
def paths (e : Entry) : List String := e.targets.map OperationTarget.path

end Entry

/-- All resources, then all data sources. -/
def Configuration.entries (c : Configuration) : List Entry :=
  c.resources.map (fun (name, config) => .resource name config) ++
    c.dataSources.map fun (name, config) => .dataSource name config

/-- The attributes of an entry, or why there are none. -/
def Source.outcome (s : Source) : Entry → Except GenerationError (List Attribute)
  | .resource name config => s.resource name config
  | .dataSource name config => s.dataSource name config

namespace Generated

/-- The entries that are generated: resources, then data sources. -/
def produced (g : Generated) : List ((EntryKind × String) × List Attribute) :=
  g.specification.resources.map (fun e => ((.resource, e.name), e.attributes)) ++
    g.specification.dataSources.map fun e => ((.dataSource, e.name), e.attributes)

/-- The entries that are skipped, with the reasons. -/
def failed (g : Generated) : List ((EntryKind × String) × GenerationError) :=
  g.skipped.map fun s => ((s.kind, s.name), s.error)

/-- What became of an entry: its attributes, the reason why it is skipped, or
nothing if there is no such entry. -/
def outcome? (g : Generated) (label : EntryKind × String) :
    Option (Except GenerationError (List Attribute)) :=
  match g.produced.find? (·.1 = label) with
  | some (_, attributes) => some (.ok attributes)
  | none => (g.failed.find? (·.1 = label)).map fun (_, e) => .error e

end Generated

/-! ## What an entry depends on -/

namespace Source

variable {s s' : Source}

theorem operation_congr {target : Option OperationTarget}
    (h : ∀ t ∈ target, s'.description.explore t = s.description.explore t)
    (owner field : String) : s'.operation owner field target = s.operation owner field target := by
  cases target with
  | none => rfl
  | some t => exact h t rfl

theorem operation?_congr {target : Option OperationTarget}
    (h : ∀ t ∈ target, s'.description.explore t = s.description.explore t) :
    s'.operation? target = s.operation? target := by
  cases target with
  | none => rfl
  | some t => exact congrArg (Except.map some) (h t rfl)

theorem entryBuilder_congr (hlines : s'.lines = s.lines) (flavor : Flavor)
    (options : SchemaOptions) :
    s'.entryBuilder flavor options = s.entryBuilder flavor options := by
  unfold entryBuilder
  rw [hlines]

/-- An entry depends on nothing but the operations it is made of. -/
theorem outcome_congr_of_explore (hlines : s'.lines = s.lines) {e : Entry}
    (h : ∀ target ∈ e.targets, s'.description.explore target = s.description.explore target) :
    s'.outcome e = s.outcome e := by
  cases e with
  | resource name c =>
    have hoperations : s'.resourceOperations name c = s.resourceOperations name c := by
      unfold resourceOperations
      rw [operation_congr fun t ht => h t (by simp [Entry.targets, Option.mem_def.mp ht]),
        operation_congr fun t ht => h t (by simp [Entry.targets, Option.mem_def.mp ht]),
        operation?_congr fun t ht => h t (by simp [Entry.targets, Option.mem_def.mp ht])]
    have hcontributions (o : ResourceOperations) :
        s'.resourceContributions c o = s.resourceContributions c o := by
      unfold resourceContributions
      rw [entryBuilder_congr hlines]
    unfold outcome resource
    dsimp only
    rw [hoperations]
    simp only [hcontributions]
  | dataSource name c =>
    have hcontributions (o : ExploredOperation) :
        s'.dataSourceContributions name c o = s.dataSourceContributions name c o := by
      unfold dataSourceContributions
      rw [entryBuilder_congr hlines, hlines]
    unfold outcome dataSource
    dsimp only
    rw [operation_congr fun t ht => h t (by simp [Entry.targets, Option.mem_def.mp ht])]
    simp only [hcontributions]

theorem explore_congr {d d' : Description} {target : OperationTarget}
    (h : Table.get? d'.paths target.path = Table.get? d.paths target.path) :
    d'.explore target = d.explore target := by
  unfold Description.explore
  rw [h]

/-- An entry comes out alike in all descriptions that agree on its paths. -/
theorem outcome_congr {d d' : Description} {e : Entry} (h : d.AgreesOn e.paths d')
    (lines : Option LineIndex) :
    (ofDescription d' lines).outcome e = (ofDescription d lines).outcome e := by
  refine outcome_congr_of_explore ?_ fun target htarget => explore_congr ?_
  · rfl
  · exact h.get?_paths_inlined_eq (List.mem_map_of_mem htarget)

end Source

/-! ## What becomes of the entries -/

section

variable {α κ β : Type}

/-- Of a list with distinct keys, partly kept, the part with the key of an
element is that element, if it is kept. -/
theorem find?_filterMap_of_nodup [DecidableEq κ] {key : α → κ} {f : α → Option β} {l : List α}
    {a : α} (hdistinct : (l.map key).Nodup) (ha : a ∈ l) :
    (l.filterMap fun b => (f b).map (Prod.mk (key b))).find? (fun found => found.1 = key a) =
      (f a).map (Prod.mk (key a)) := by
  induction l with
  | nil => cases ha
  | cons b rest ih =>
    rw [List.map_cons, List.nodup_cons] at hdistinct
    rcases List.mem_cons.mp ha with rfl | hrest
    · have hlater : ∀ c ∈ rest, key c ≠ key a := by
        intro c hc hkey
        exact hdistinct.1 (hkey ▸ List.mem_map_of_mem hc)
      cases hfa : f a with
      | some built => simp [hfa]
      | none =>
        -- Nothing is found, since no later element has the key either.
        simp only [List.filterMap_cons, hfa, Option.map_none, List.find?_eq_none,
          List.mem_filterMap, Option.map_eq_some_iff, decide_eq_true_eq]
        rintro _ ⟨c, hc, built, -, rfl⟩
        exact hlater c hc
    · have hkey : key b ≠ key a := by
        intro hkey
        exact hdistinct.1 (hkey ▸ List.mem_map_of_mem hrest)
      cases hfb : f b with
      | some built => simpa [hfb, hkey] using ih hdistinct.2 hrest
      | none => simpa [hfb] using ih hdistinct.2 hrest

/-- The keys of what is kept. -/
theorem map_fst_filterMap (key : α → κ) (f : α → Option β) (l : List α) :
    (l.filterMap fun a => (f a).map (Prod.mk (key a))).map Prod.fst =
      (l.filter fun a => (f a).isSome).map key := by
  induction l with
  | nil => rfl
  | cons a rest ih =>
    cases hfa : f a with
    | none => simpa [hfa] using ih
    | some built => simpa [hfa] using ih

end

theorem generateEntries_eq {α : Type} (kind : EntryKind)
    (attributes : String → α → Except GenerationError (List Attribute))
    (configs : List (String × α)) :
    generateEntries kind attributes configs =
      (configs.filterMap fun (name, config) =>
          (attributes name config).toOption.map (SchemaEntry.mk name),
        configs.filterMap fun (name, config) =>
          (failure? (attributes name config)).map (Skipped.mk kind name)) := by
  induction configs with
  | nil => rfl
  | cons entry rest ih =>
    obtain ⟨name, config⟩ := entry
    rw [generateEntries, ih]
    cases hbuilt : attributes name config with
    | error e => simp [hbuilt, Except.toOption, failure?]
    | ok built => simp [hbuilt, Except.toOption, failure?]

section

variable {d : Description} {c : Configuration} {lines : Option LineIndex} {g : Generated}

/-- What is generated and what is skipped, in terms of the entries. -/
theorem produced_failed_of_generate_eq_ok (h : generate d c lines = .ok g) :
    g.produced = c.entries.filterMap (fun e =>
        ((Source.ofDescription d lines).outcome e).toOption.map (Prod.mk e.label)) ∧
      g.failed = c.entries.filterMap fun e =>
        (failure? ((Source.ofDescription d lines).outcome e)).map (Prod.mk e.label) := by
  obtain ⟨-, skippedResources, skippedSources, hresources, hdataSources, hskipped, -⟩ :=
    generate_eq_ok_iff.mp h
  rw [generateEntries_eq, Prod.mk.injEq] at hresources hdataSources
  unfold Generated.produced Generated.failed Configuration.entries
  rw [hskipped, ← hresources.1, ← hresources.2, ← hdataSources.1, ← hdataSources.2]
  simp only [List.map_append, List.map_filterMap, List.filterMap_append, List.filterMap_map,
    Option.map_map]
  exact ⟨rfl, rfl⟩

/-- An entry is reported as what became of it. -/
theorem outcome?_of_generate_eq_ok (h : generate d c lines = .ok g)
    (hdistinct : (c.entries.map Entry.label).Nodup) {e : Entry} (he : e ∈ c.entries) :
    g.outcome? e.label = some ((Source.ofDescription d lines).outcome e) := by
  obtain ⟨hproduced, hfailed⟩ := produced_failed_of_generate_eq_ok h
  unfold Generated.outcome?
  rw [hproduced, hfailed, find?_filterMap_of_nodup hdistinct he,
    find?_filterMap_of_nodup hdistinct he]
  cases (Source.ofDescription d lines).outcome e with
  | ok attributes => rfl
  | error e => rfl

/-- Every entry is generated or skipped, in the order of the configuration. -/
theorem perm_labels_of_generate_eq_ok (h : generate d c lines = .ok g) :
    (g.produced.map Prod.fst).Sublist (c.entries.map Entry.label) ∧
      (g.failed.map Prod.fst).Sublist (c.entries.map Entry.label) ∧
        (g.produced.map Prod.fst ++ g.failed.map Prod.fst).Perm (c.entries.map Entry.label) := by
  obtain ⟨hproduced, hfailed⟩ := produced_failed_of_generate_eq_ok h
  have hskipped : (fun e => (failure? ((Source.ofDescription d lines).outcome e)).isSome) =
      fun e => !((Source.ofDescription d lines).outcome e).toOption.isSome := by
    funext e
    cases (Source.ofDescription d lines).outcome e <;> rfl
  rw [hproduced, hfailed, map_fst_filterMap, map_fst_filterMap, hskipped, ← List.map_append]
  exact ⟨List.filter_sublist.map _, List.filter_sublist.map _,
    (List.filter_append_perm _ _).map _⟩

end

/-- All entries are generated or skipped, each of them once and in the order in
which they are configured.  What becomes of one of them remains the same if
other entries are configured, if the provider has no schema and if only the
paths of the entry are described, with the components that they lead to. -/
theorem isolated_of_generate_eq_ok {d : Description} {c : Configuration}
    {lines : Option LineIndex} {g : Generated} (h : generate d c lines = .ok g)
    (hdistinct : (c.entries.map Entry.label).Nodup) :
    ((g.produced.map Prod.fst).Sublist (c.entries.map Entry.label) ∧
      (g.failed.map Prod.fst).Sublist (c.entries.map Entry.label) ∧
      (g.produced.map Prod.fst ++ g.failed.map Prod.fst).Perm (c.entries.map Entry.label)) ∧
      ∀ e ∈ c.entries, (g.outcome? e.label).isSome ∧
        d.AgreesOn e.paths (d.restrictedTo e.paths) ∧
        ∀ d' c', d.AgreesOn e.paths d' → e ∈ c'.entries → (c'.entries.map Entry.label).Nodup →
          (c'.provider.schemaReference = none → ∃ g', generate d' c' lines = .ok g') ∧
            ∀ g', generate d' c' lines = .ok g' → g'.outcome? e.label = g.outcome? e.label := by
  refine ⟨perm_labels_of_generate_eq_ok h, fun e he => ?_⟩
  have houtcome := outcome?_of_generate_eq_ok h hdistinct he
  refine ⟨by rw [houtcome]; rfl, d.agreesOn_restrictedTo e.paths, ?_⟩
  intro d' c' hagrees he' hdistinct'
  constructor
  · intro hprovider
    unfold generate Source.provider
    rw [hprovider]
    exact ⟨_, rfl⟩
  · intro g' h'
    rw [houtcome, outcome?_of_generate_eq_ok h' hdistinct' he',
      Source.outcome_congr hagrees lines]

/-! ## A description with a circular definition -/

/-- Reading a thing of which a component schema says what it is. -/
def readComponent (name : String) : Operation where
  responses := [("200", .inline { content := [("application/json",
    { schema := some (.reference (Reference.text "schemas" name)) })] })]

/-- Nodes that are made of nodes, and leaves that are not. -/
def treeDescription : Description where
  openapi := "3.0.0"
  info := { title := "Trees", version := "1" }
  paths := [("/node", { get := some (readComponent "Node") }),
    ("/leaf", { get := some (readComponent "Leaf") })]
  components := some {
    schemas := [
      ("Node", .inline { type := some (.single .object) }
        { properties := [("parent", .reference (Reference.text "schemas" "Node"))] }),
      ("Leaf", .inline { type := some (.single .object) }
        { properties := [("color", .inline { type := some (.single .string) } {})] })] }

/-- The leaves as an entry. -/
def leafEntry : Entry := .dataSource "leaf" { read := some ⟨"/leaf", "GET"⟩ }

/-- A configuration of nodes and leaves, and of a provider that has the schema of a leaf. -/
def treeConfiguration : Configuration where
  provider := { name := "trees", schemaReference := some (Reference.text "schemas" "Leaf") }
  dataSources := [("node", { read := some ⟨"/node", "GET"⟩ }),
    ("leaf", { read := some ⟨"/leaf", "GET"⟩ })]

/-- The configuration of leaves alone. -/
def leafConfiguration : Configuration where
  provider := { name := "trees" }
  dataSources := [("leaf", { read := some ⟨"/leaf", "GET"⟩ })]

/-- Nodes are skipped, and leaves come out as they do without nodes. -/
theorem isolated_generate_trees :
    ∃ g, generate treeDescription treeConfiguration none = .ok g ∧
      g.failed.map Prod.fst = [(.dataSource, "node")] ∧
      g.produced.map Prod.fst = [(.dataSource, "leaf")] ∧
      ∃ g', generate (treeDescription.restrictedTo ["/leaf"]) leafConfiguration none = .ok g' ∧
        g'.outcome? (.dataSource, "leaf") = g.outcome? (.dataSource, "leaf") := by
  have hlabels : (generate treeDescription treeConfiguration none).toOption.map
      (fun g => (g.failed.map Prod.fst, g.produced.map Prod.fst)) =
        some ([(.dataSource, "node")], [(.dataSource, "leaf")]) := by decide +kernel
  cases h : generate treeDescription treeConfiguration none with
  | error e =>
    rw [h] at hlabels
    cases hlabels
  | ok g =>
    rw [h] at hlabels
    obtain ⟨hfailed, hproduced⟩ := Prod.mk.inj (Option.some.inj hlabels)
    refine ⟨g, rfl, hfailed, hproduced, ?_⟩
    obtain ⟨-, hagrees, halike⟩ := (isolated_of_generate_eq_ok h (by decide)).2 leafEntry
      (List.mem_cons_of_mem _ List.mem_cons_self)
    obtain ⟨hok, heq⟩ := halike _ leafConfiguration hagrees List.mem_cons_self (by decide)
    obtain ⟨g', h'⟩ := hok rfl
    exact ⟨g', h', heq g' h'⟩

end ProviderSchema
