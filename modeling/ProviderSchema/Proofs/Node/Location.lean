import ProviderSchema.Json.Printer
import ProviderSchema.Proofs.Node.Arranged
import ProviderSchema.Proofs.OpenApi.Copies

/-!
# Where nodes come from

`Walk` goes down a description and its inlined form in step.  A reference of the
description is entered, which is no step in the inlined form; a member of a
composition is passed without a key; a property, the items and the further values
are passed with one.  A `Place` is what is left of such a walk: the components that
were entered and the steps since.

A node is made from what a walk leads to (`Node.MadeAt`), and for every node that is
reached from it the walk goes on with the same keys (`Node.MadeAt.exists_walk`).  So
the location of a node is the way from the component that was entered last to the
schema that it was copied from (`Description.exists_walk_of_reaches`).
-/

namespace ProviderSchema

open OpenApi

namespace OpenApi

/-! ## Places -/

/-- Whether a step leads to a property, the items or the further values. -/
def Step.isIntoValue : Step → Bool
  | .property _ | .items | .additional => true
  | _ => false

/-- The keys of a step to a value; the members of compositions and tuples have none. -/
def Step.keys : Step → List String
  | .property name => ["properties", name]
  | .items => ["items"]
  | .additional => ["additionalProperties"]
  | _ => []

theorem Step.isIntoTuple_of_isIntoComposition {step : Step} (h : step.isIntoComposition = true) :
    step.isIntoTuple = false := by
  cases step <;> first | rfl | cases h

theorem Step.isIntoTuple_of_isIntoValue {step : Step} (h : step.isIntoValue = true) :
    step.isIntoTuple = false := by
  cases step <;> first | rfl | cases h

theorem Step.keys_of_isIntoComposition {step : Step} (h : step.isIntoComposition = true) :
    step.keys = [] := by
  cases step <;> first | rfl | cases h

/-- What is left of a walk. -/
structure Place where
  /-- The components that were entered, the last one first. -/
  entered : List String := []
  /-- The steps since. -/
  steps : List Step := []

namespace Place

/-- The component that a place is the whole of. -/
def origin (p : Place) : Option String := if p.steps = [] then p.entered.head? else none

/-- The place of a component that is entered. -/
def enter (p : Place) (name : String) : Place := ⟨name :: p.entered, []⟩

/-- The place one step further down. -/
def below (p : Place) (step : Step) : Place := ⟨p.entered, p.steps ++ [step]⟩

/-- The keys that lead to a place; there are none if no component was entered. -/
def location (p : Place) : List String :=
  match p.entered with
  | [] => []
  | name :: _ => ["components", "schemas", name] ++ p.steps.flatMap Step.keys

@[simp] theorem origin_enter (p : Place) (name : String) : (p.enter name).origin = some name := rfl

@[simp] theorem origin_below (p : Place) (step : Step) : (p.below step).origin = none := by
  simp [origin, below]

theorem location_below (p : Place) (step : Step) :
    (p.below step).location = locationBelow p.location step.keys := by
  obtain ⟨entered, steps⟩ := p
  cases entered <;> simp [location, below, locationBelow]

/-- A copy has the location of its place: it bears the name of the component, or it
has the location that leads to it. -/
theorem location_eq {p : Place} {location : List String}
    (h : p.origin = none → location = p.location) (keywords : Keywords) :
    { keywords with origin := p.origin }.location location = p.location := by
  cases horigin : p.origin with
  | none => exact h horigin
  | some name =>
    unfold origin at horigin
    split at horigin
    · rename_i hsteps
      obtain ⟨rest, hentered⟩ : ∃ rest, p.entered = name :: rest :=
        ⟨_, List.eq_cons_of_mem_head? horigin⟩
      simp [Keywords.location, Place.location, hentered, hsteps]
    · cases horigin

end Place

/-! ## Walks -/

/-- A schema of a description at a place, and what inlining made of it. -/
structure Spot where
  place : Place
  source : Schema
  copy : Schema

/-- A walk through a description and its inlined form, with the steps to values. -/
inductive Walk (schemas : List (String × Schema)) : Spot → List Step → Spot → Prop where
  | here (spot : Spot) : Walk schemas spot [] spot
  | enter {place : Place} {target name : String} {s t : Schema} {path : List Step} {last : Spot}
      (hlookup : Schema.lookup schemas target = .ok (name, s))
      (rest : Walk schemas ⟨place.enter name, s, t⟩ path last) :
      Walk schemas ⟨place, .reference target, t⟩ path last
  | member {place : Place} {k k' : Keywords} {c c' : Children Schema} {step : Step} {s t : Schema}
      {path : List Step} {last : Spot} (hstep : step.isIntoComposition = true)
      (hs : c.child? step = some s) (ht : c'.child? step = some t)
      (rest : Walk schemas ⟨place.below step, s, t⟩ path last) :
      Walk schemas ⟨place, .inline k c, .inline k' c'⟩ path last
  | value {place : Place} {k k' : Keywords} {c c' : Children Schema} {step : Step} {s t : Schema}
      {path : List Step} {last : Spot} (hstep : step.isIntoValue = true)
      (hs : c.child? step = some s) (ht : c'.child? step = some t)
      (rest : Walk schemas ⟨place.below step, s, t⟩ path last) :
      Walk schemas ⟨place, .inline k c, .inline k' c'⟩ (step :: path) last

variable {schemas : List (String × Schema)}

theorem Walk.append {first middle last : Spot} {path path' : List Step}
    (h : Walk schemas first path middle) (h' : Walk schemas middle path' last) :
    Walk schemas first (path ++ path') last := by
  induction h with
  | here => exact h'
  | enter hlookup _ ih => exact .enter hlookup (ih h')
  | member hstep hs ht _ ih => exact .member hstep hs ht (ih h')
  | value hstep hs ht _ ih => exact .value hstep hs ht (ih h')

/-- The steps of a place lead from the component that was entered last to the schema
at the place, without passing a reference or a tuple. -/
structure Spot.Located (schemas : List (String × Schema)) (spot : Spot) : Prop where
  way : ∀ name before, spot.place.entered = name :: before →
    ∃ s, Table.get? schemas name = some s ∧ s.at? spot.place.steps = some spot.source
  steps : ∀ step ∈ spot.place.steps, step.isIntoTuple = false

theorem Schema.at?_append_singleton {s : Schema} {steps : List Step} {step : Step} {k : Keywords}
    {c : Children Schema} (h : s.at? steps = some (.inline k c)) :
    s.at? (steps ++ [step]) = c.child? step := by
  induction steps generalizing s with
  | nil =>
    cases h
    simp [at?]
  | cons first rest ih =>
    cases s with
    | reference target => cases h
    | inline k' c' =>
      rw [at?, Option.bind_eq_some_iff] at h
      obtain ⟨next, hnext, hrest⟩ := h
      rw [List.cons_append, at?, hnext]
      exact ih hrest

theorem Spot.Located.enter {place : Place} {target name : String} {s t : Schema}
    (hlookup : Schema.lookup schemas target = .ok (name, s)) :
    Located schemas ⟨place.enter name, s, t⟩ := by
  obtain ⟨-, hget⟩ := (Reference.lookup_eq_ok_iff (by decide)).mp hlookup
  refine ⟨fun name' before h => ?_, fun step hstep => by cases hstep⟩
  cases h
  exact ⟨s, hget, rfl⟩

theorem Spot.Located.below {place : Place} {k : Keywords} {c : Children Schema} {step : Step}
    {s t t' : Schema} (h : Located schemas ⟨place, .inline k c, t⟩)
    (hstep : step.isIntoTuple = false) (hs : c.child? step = some s) :
    Located schemas ⟨place.below step, s, t'⟩ := by
  refine ⟨fun name before hentered => ?_, ?_⟩
  · obtain ⟨component, hget, hat⟩ := h.way name before hentered
    exact ⟨component, hget, (Schema.at?_append_singleton hat).trans hs⟩
  · intro other hother
    rcases List.mem_append.mp hother with hother | hother
    · exact h.steps other hother
    · rw [List.mem_singleton] at hother
      rwa [hother]

theorem Walk.located {first last : Spot} {path : List Step} (h : Walk schemas first path last)
    (hfirst : first.Located schemas) : last.Located schemas := by
  induction h with
  | here => exact hfirst
  | enter hlookup _ ih => exact ih (.enter hlookup)
  | member hstep hs _ _ ih =>
    exact ih (hfirst.below (Step.isIntoTuple_of_isIntoComposition hstep) hs)
  | value hstep hs _ _ ih => exact ih (hfirst.below (Step.isIntoTuple_of_isIntoValue hstep) hs)

end OpenApi

/-! ## Nodes and the walks to them -/

namespace Node

/-- The effective schema of a node. -/
def schema (n : Node) : Schema := .inline n.facts.keywords n.facts.children

/-- A node is a child of another one: that of a property, of the items or of the map
values. -/
inductive Child : Node → Step → Node → Prop where
  | property {n m : Node} {p : Property} (h : (p, .ok m) ∈ n.properties) :
      Child n (.property p.original) m
  | items {n m : Node} (h : n.items = .ok m) : Child n .items m
  | mapValue {n m : Node} (h : n.mapValue = .ok m) : Child n .additional m

/-- A node is reached from another one by steps from child to child. -/
inductive Reaches : Node → List Step → Node → Prop where
  | here (n : Node) : Reaches n [] n
  | child {n m last : Node} {step : Step} {path : List Step} (h : Child n step m)
      (rest : Reaches m path last) : Reaches n (step :: path) last

/-- What is passed on from a node to its children holds of all nodes that are reached. -/
theorem Reaches.forall {P : Node → Prop} (hchild : ∀ n m step, P n → Child n step m → P m)
    {n m : Node} {path : List Step} (hreach : n.Reaches path m) (hn : P n) : P m := by
  induction hreach with
  | here => exact hn
  | child h _ ih => exact ih (hchild _ _ _ hn h)

/-- A node is that of the schema at a spot, and its children are those of the
schemas below. -/
structure MadeAt (schemas : List (String × Schema)) (n : Node) (spot : Spot) : Prop where
  source : ∃ keywords c, spot.source = .inline keywords c
  copy : spot.copy = n.schema
  copied : Schema.CopyOf schemas spot.place.origin spot.source spot.copy
  location : n.facts.location = spot.place.location
  properties : n.properties = arrange (Schema.propertyNodes (n.facts.depth + 1) n.facts.location
    n.facts.children.properties)
  items : n.items = Schema.itemNode (n.facts.depth + 1) n.facts.location n.facts.children.items
  mapValue : n.mapValue =
    Schema.valueNode (n.facts.depth + 1) n.facts.location n.facts.children.additional

variable {schemas : List (String × Schema)} {n : Node} {spot : Spot}

theorem MadeAt.describedBy (h : n.MadeAt schemas spot) (description : Option String) :
    (n.describedBy description).MadeAt schemas spot := by
  obtain ⟨facts, properties, items, mapValue⟩ := n
  obtain ⟨hsource, hcopy, hcopied, hlocation, hproperties, hitems, hvalue⟩ := h
  cases description with
  | none => exact ⟨hsource, hcopy, hcopied, hlocation, hproperties, hitems, hvalue⟩
  | some d => exact ⟨hsource, hcopy, hcopied, hlocation, hproperties, hitems, hvalue⟩

end Node

namespace OpenApi.Schema

variable {schemas : List (String × Schema)}

/-- From a copy at a place, a walk without keys leads to what its node is made of. -/
theorem exists_walk_of_branch (place : Place) {source copy : Schema}
    (hcopy : CopyOf schemas place.origin source copy) {depth : Nat} {location : List String}
    {n : Node} (hlocation : place.origin = none → location = place.location)
    (h : branch depth location copy = .ok (.node n)) :
    ∃ spot, Walk schemas ⟨place, source, copy⟩ [] spot ∧ n.MadeAt schemas spot := by
  -- by induction on what the copy was made from; the name that it bears stays that of the place
  generalize horigin : place.origin = origin at hcopy
  induction hcopy generalizing place depth location n with
  | left origin target =>
    rw [branch] at h
    split at h <;> cases h
  | @target origin target name s t hlookup _ ih =>
    obtain ⟨spot, hwalk, hmade⟩ := ih (place.enter name) (fun h => by cases h) h
      (place.origin_enter name)
    exact ⟨spot, .enter hlookup hwalk, hmade⟩
  | @inline origin keywords c c' names shape children ih =>
    subst horigin
    obtain ⟨-, ⟨t, ht, m, hm, rfl⟩ | ⟨-, kind, -, rfl⟩⟩ := branch_inline_inversion h
    · -- A composition: the walk goes on with the member that survives.
      rw [Place.location_eq hlocation] at hm
      obtain ⟨step, hstep, ht⟩ := Children.exists_child?_of_mem_composition ht
      obtain ⟨s, hs⟩ := Children.exists_child?_of_shape_eq shape ht
      have hbelow : (place.below step).location = place.location := by
        rw [Place.location_below, Step.keys_of_isIntoComposition hstep]
        simp [locationBelow]
      obtain ⟨spot, hwalk, hmade⟩ := ih step s t hs ht (place.below step)
        (fun _ => hbelow.symm) hm (place.origin_below step)
      exact ⟨spot, .member hstep hs ht hwalk, hmade.describedBy keywords.description⟩
    · rw [Place.location_eq hlocation]
      exact ⟨_, .here _, ⟨keywords, c, rfl⟩, rfl, .inline _ names shape children, rfl, rfl, rfl,
        rfl⟩

end OpenApi.Schema

namespace Node

variable {schemas : List (String × Schema)} {n : Node} {spot : Spot}

/-- What is known of a node and the schema that it was copied from. -/
theorem MadeAt.exists_children (h : n.MadeAt schemas spot) :
    ∃ keywords c, spot = ⟨spot.place, .inline keywords c, n.schema⟩ ∧
      (c.properties.map (·.1)).Nodup ∧ n.facts.children.shape = c.shape ∧
        ∀ step s t, c.child? step = some s → n.facts.children.child? step = some t →
          Schema.CopyOf schemas none s t := by
  obtain ⟨keywords, c, hsource⟩ := h.source
  have hcopied := h.copied
  rw [hsource, h.copy] at hcopied
  refine ⟨keywords, c, ?_, hcopied.inline_inversion.2⟩
  rw [← hsource, ← h.copy]

/-- A child of a node is the node of a child schema, at a location that is a step
further. -/
theorem MadeAt.exists_branch (h : n.MadeAt schemas spot) {step : Step} {m : Node}
    (hm : Child n step m) :
    step.isIntoValue = true ∧ ∃ t, n.facts.children.child? step = some t ∧
      Schema.branch (n.facts.depth + 1) (locationBelow n.facts.location step.keys) t =
        .ok (.node m) := by
  cases hm with
  | @property _ p hm =>
    obtain ⟨_, _, -, hnames, shape, -⟩ := h.exists_children
    rw [← Children.names_of_shape_eq shape] at hnames
    rw [h.properties] at hm
    obtain ⟨t, ht, hbranch⟩ := Schema.mem_propertyNodes (mem_of_mem_arrange hm).2
    exact ⟨rfl, t, (Table.get?_eq_some_iff hnames).mpr ht, hbranch⟩
  | items hm =>
    rw [h.items] at hm
    obtain ⟨t, ht, hbranch⟩ := Schema.itemNode_eq_ok hm
    exact ⟨rfl, t, by rw [Children.child?, ht], hbranch⟩
  | mapValue hm =>
    rw [h.mapValue] at hm
    obtain ⟨t, ht, hbranch⟩ := Schema.valueNode_eq_ok hm
    exact ⟨rfl, t, by rw [Children.child?, ht], hbranch⟩

/-- The walk to the schema of a node goes on to that of a child, with one key. -/
theorem MadeAt.exists_walk_of_child (h : n.MadeAt schemas spot) {step : Step} {m : Node}
    (hm : Child n step m) :
    ∃ next, Walk schemas spot [step] next ∧ m.MadeAt schemas next := by
  obtain ⟨hstep, t, ht, hbranch⟩ := h.exists_branch hm
  obtain ⟨keywords, c, hspot, -, shape, children⟩ := h.exists_children
  obtain ⟨s, hs⟩ := Children.exists_child?_of_shape_eq shape ht
  have hcopy : Schema.CopyOf schemas (spot.place.below step).origin s t := by
    rw [Place.origin_below]
    exact children step s t hs ht
  have hlocation : locationBelow n.facts.location step.keys = (spot.place.below step).location := by
    rw [h.location, Place.location_below]
  obtain ⟨next, hwalk, hmade⟩ := Schema.exists_walk_of_branch _ hcopy (fun _ => hlocation) hbranch
  refine ⟨next, ?_, hmade⟩
  rw [hspot]
  exact .value hstep hs ht hwalk

/-- The walk goes on to the schemas of all nodes that are reached. -/
theorem MadeAt.exists_walk (h : n.MadeAt schemas spot) {path : List Step} {last : Node}
    (hreach : n.Reaches path last) :
    ∃ next, Walk schemas spot path next ∧ last.MadeAt schemas next := by
  induction hreach generalizing spot with
  | here => exact ⟨spot, .here spot, h⟩
  | child hm _ ih =>
    obtain ⟨middle, hfirst, hmade⟩ := h.exists_walk_of_child hm
    obtain ⟨next, hrest, hlast⟩ := ih hmade
    exact ⟨next, hfirst.append hrest, hlast⟩

/-- A node has the location of the schema that it was copied from. -/
structure PointsAt (schemas : List (String × Schema)) (n : Node) (spot : Spot) : Prop where
  copy : spot.copy = n.schema
  copied : Schema.CopyOf schemas spot.place.origin spot.source n.schema
  /-- There is no location exactly if no component was entered. -/
  unknown_iff : spot.place.entered = [] ↔ n.facts.location = []
  /-- A location leads from the component that was entered last, which is an inline
  one, past no reference to the schema that was copied. -/
  known : n.facts.location ≠ [] → ∃ name before keywords c keywords' c',
    spot.place.entered = name :: before ∧
      n.facts.location =
          ["components", "schemas", name] ++ spot.place.steps.flatMap Step.keys ∧
      Table.get? schemas name = some (.inline keywords c) ∧
      Schema.at? spot.place.steps (.inline keywords c) = some spot.source ∧
      spot.source = .inline keywords' c' ∧
      ∀ step ∈ spot.place.steps, step.isIntoTuple = false

theorem MadeAt.pointsAt (h : n.MadeAt schemas spot) (hspot : spot.Located schemas) :
    n.PointsAt schemas spot := by
  obtain ⟨keywords', c', hsource⟩ := h.source
  refine ⟨h.copy, h.copy ▸ h.copied, ?_, fun hknown => ?_⟩
  · rw [h.location, Place.location]
    cases spot.place.entered <;> simp
  · cases hentered : spot.place.entered with
    | nil =>
      rw [h.location, Place.location, hentered] at hknown
      exact absurd rfl hknown
    | cons name before =>
      obtain ⟨component, hget, hat⟩ := hspot.way name before hentered
      obtain ⟨keywords, c, rfl⟩ : ∃ keywords c, component = .inline keywords c := by
        rw [hsource] at hat
        cases component with
        | inline keywords c => exact ⟨keywords, c, rfl⟩
        | reference target => cases hsteps : spot.place.steps <;> rw [hsteps] at hat <;> cases hat
      refine ⟨name, before, keywords, c, keywords', c', rfl, ?_, hget, hat, hsource, hspot.steps⟩
      rw [h.location, Place.location, hentered]

end Node

/-! ## The law of locations -/

namespace OpenApi.Description

variable {d : Description} {t : Schema} {root n : Node} {path : List Step}

/-- The walk to a schema of an inlined description starts at a schema that it is a
copy of, in no component that is known, or at the component that it is the whole of. -/
inductive StartsAt (d : Description) (t : Schema) : Spot → Prop where
  | anywhere {s : Schema} (h : d.Contains s) : StartsAt d t ⟨⟨[], []⟩, s, t⟩
  | component {name : String} {s : Schema} (h : (name, s) ∈ d.schemas) :
      StartsAt d t ⟨⟨[name], []⟩, s, t⟩

theorem exists_walk_of_copyOf (place : Place) {s : Schema}
    (hcopy : Schema.CopyOf d.schemas place.origin s t)
    (hlocated : Spot.Located d.schemas ⟨place, s, t⟩)
    (hlocation : place.origin = none → [] = place.location) (hroot : t.node = .ok root)
    (hreach : root.Reaches path n) :
    ∃ last, Walk d.schemas ⟨place, s, t⟩ path last ∧ n.PointsAt d.schemas last := by
  obtain ⟨middle, hfirst, hmade⟩ := Schema.exists_walk_of_branch place hcopy hlocation
    (Branch.bind_toNode_eq_ok_iff.mp hroot)
  obtain ⟨last, hrest, hlast⟩ := hmade.exists_walk hreach
  have hwalk := hfirst.append hrest
  exact ⟨last, hwalk, hlast.pointsAt (hwalk.located hlocated)⟩

/-- For every node that is reached from a schema of an inlined description there is a
walk with the same steps through the description as it was read, and the node has the
location of the schema that it was copied from. -/
theorem exists_walk_of_reaches {format : Format} {text : String}
    (hread : read format text = .ok d) (ht : d.inlined.Contains t) (hroot : t.node = .ok root)
    (hreach : root.Reaches path n) :
    ∃ first last, d.StartsAt t first ∧ Walk d.schemas first path last ∧
      n.PointsAt d.schemas last := by
  have hd := plain_of_read hread
  rcases ht.exists_copyOf hd with ⟨s, hs, hcopy⟩ | ⟨name, s, hs, hcopy⟩
  · have hlocated : Spot.Located d.schemas ⟨⟨[], []⟩, s, t⟩ := by
      constructor <;> simp
    obtain ⟨last, hwalk, hlast⟩ := exists_walk_of_copyOf ⟨[], []⟩ hcopy hlocated
      (fun _ => rfl) hroot hreach
    exact ⟨_, last, .anywhere hs, hwalk, hlast⟩
  · have hlocated : Spot.Located d.schemas ⟨⟨[name], []⟩, s, t⟩ := by
      refine ⟨fun name' before h => ?_, fun _ h => by cases h⟩
      cases h
      exact ⟨s, (Table.get?_eq_some_iff hd.names).mpr hs, rfl⟩
    obtain ⟨last, hwalk, hlast⟩ := exists_walk_of_copyOf ⟨[name], []⟩ hcopy hlocated
      (fun h => by cases h) hroot hreach
    exact ⟨_, last, .component hs, hwalk, hlast⟩

/-- The JSON text of a description in which a component is a wrapper around another
one, which has a property. -/
def wrapperText : String :=
  (Json.object [
    ("openapi", .text "3.0.0"),
    ("info", .object [("title", .text "Tags"), ("version", .text "1.0.0")]),
    ("paths", .object []),
    ("components", .object [
      ("schemas", .object [
        ("A", .object [
          ("allOf", .array [.object [("$ref", .text "#/components/schemas/B")]])]),
        ("B", .object [
          ("properties", .object [("tag", .object [("type", .text "string")])])])])])]).compact

/-- The location of the first property of the first component schema of a text. -/
def firstLocation? (text : String) : Option (String × List String) :=
  match read .json text with
  | .ok d =>
    match d.inlined.schemas with
    | (_, t) :: _ =>
      match t.node with
      | .ok (.mk _ ((p, .ok n) :: _) _ _) => some (p.original, n.facts.location)
      | _ => none
    | [] => none
  | .error _ => none

/-- The first property is reached from a schema that stands in the inlined form. -/
theorem exists_reaches_of_firstLocation? {text name : String} {location : List String}
    (h : firstLocation? text = some (name, location)) :
    ∃ d t root n, read .json text = .ok d ∧ d.inlined.Contains t ∧ t.node = .ok root ∧
      root.Reaches [.property name] n ∧ n.facts.location = location := by
  unfold firstLocation? at h
  split at h
  · rename_i d hread
    split at h
    · rename_i component t rest hschemas
      split at h
      · rename_i facts p n more items mapValue hroot
        obtain ⟨rfl, rfl⟩ := Prod.mk.inj (Option.some_inj.mp h)
        have hmem : (component, t) ∈ d.inlined.schemas := by
          rw [hschemas]
          exact List.mem_cons_self
        exact ⟨d, t, _, n, hread, .component hmem .here, hroot,
          .child (.property List.mem_cons_self) (.here n), rfl⟩
      · cases h
    · cases h
  · cases h

theorem exists_walk_of_reaches_wrapperText :
    ∃ d t root n, read .json wrapperText = .ok d ∧ d.inlined.Contains t ∧ t.node = .ok root ∧
      root.Reaches [.property "tag"] n ∧
      n.facts.location = ["components", "schemas", "B", "properties", "tag"] ∧
      ∃ first last, d.StartsAt t first ∧ Walk d.schemas first [.property "tag"] last ∧
        n.PointsAt d.schemas last := by
  have hfirst : firstLocation? wrapperText =
      some ("tag", ["components", "schemas", "B", "properties", "tag"]) := by decide +kernel
  obtain ⟨d, t, root, n, hread, ht, hroot, hreach, hlocation⟩ :=
    exists_reaches_of_firstLocation? hfirst
  exact ⟨d, t, root, n, hread, ht, hroot, hreach, hlocation,
    exists_walk_of_reaches hread ht hroot hreach⟩

end OpenApi.Description

end ProviderSchema
