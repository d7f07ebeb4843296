import ProviderSchema.Proofs.Node.ErrorPaths
import ProviderSchema.Proofs.Node.OwnKeywords
import ProviderSchema.Proofs.Node.Wrapped

/-!
# Counting the steps to a schema

The depth of a node is counted while its schema is looked for, in two recursions: one
passes from a composition to its members, the other one from a node to its children.  Both
take one step at a time from a schema to one that it holds (`Schema.Holds`), and
`Schema.Steps` are the walks that they make.

What is found has been counted right (`Schema.Counted`) if a walk to it has as many steps as
were counted.  If it is a node, the walk leads to its effective schema, and has no more
steps than there may be.  If it is an error, and the error is that a schema is too deep, the
walk has one step more than there may be.

The members of compositions keep the count right (`Schema.counted_branch`), and so do
children (`Schema.Yields.counted_of_leads`).  So the steps to whatever a node leads to are
counted from the root schema (`Schema.counted_of_leads`).
-/

namespace ProviderSchema

open OpenApi

namespace OpenApi

/-- The identifier of the property that a step leads to. -/
def Step.identifier? : Step → Option String
  | .property name => some (Text.identifier name)
  | _ => none

theorem Step.identifier?_property {α : Type} {table : List (String × α)} {p : Property}
    {a : α} (h : (p, a) ∈ arrange table) :
    (Step.property p.original).identifier? = some p.name := by
  rw [Step.identifier?, (mem_of_mem_arrange h).1]

theorem Step.filterMap_identifier?_filter (steps : List Step) :
    (steps.filter Step.isIntoValue).filterMap Step.identifier? =
      steps.filterMap Step.identifier? := by
  rw [List.filterMap_filter]
  congr 1
  funext step
  cases step <;> rfl

namespace Schema

/-- A schema holds another one as a property, as its items, as its further values, or as a
member of a composition.  Of several properties with one name each counts. -/
inductive Holds : Schema → Step → Schema → Prop where
  | property {k : Keywords} {c : Children Schema} {name : String} {s : Schema}
      (h : (name, s) ∈ c.properties) : Holds (.inline k c) (.property name) s
  | items {k : Keywords} {c : Children Schema} {s : Schema} (h : c.items = some (.schema s)) :
      Holds (.inline k c) .items s
  | additional {k : Keywords} {c : Children Schema} {s : Schema}
      (h : c.additional = some (.schema s)) : Holds (.inline k c) .additional s
  | member {k : Keywords} {c : Children Schema} {step : Step} {s : Schema}
      (hstep : step.isIntoComposition = true) (h : c.child? step = some s) :
      Holds (.inline k c) step s

/-- A walk from a schema to another one, step by step. -/
inductive Steps : Schema → List Step → Schema → Prop where
  | here (s : Schema) : Steps s [] s
  | step {s t u : Schema} {step : Step} {steps : List Step} (h : s.Holds step t)
      (rest : Steps t steps u) : Steps s (step :: steps) u

theorem Steps.append {s t u : Schema} {steps steps' : List Step} (h : s.Steps steps t)
    (h' : t.Steps steps' u) : s.Steps (steps ++ steps') u := by
  induction h with
  | here => exact h'
  | step hstep _ ih => exact .step hstep (ih h')

/-- What is found from a schema at a depth, after some steps to values, has been counted
right. -/
inductive Counted (s : Schema) (depth : Nat) (values : List Step) :
    Except SchemaError Node → Prop where
  | node {n : Node} {steps : List Step} (walk : s.Steps steps n.schema)
      (values_eq : steps.filter Step.isIntoValue = values)
      (depth_eq : n.facts.depth = depth + steps.length)
      (le : n.facts.depth ≤ maxSchemaDepth) : Counted s depth values (.ok n)
  | tooDeep {steps : List Step} {t : Schema} (walk : s.Steps steps t)
      (values_eq : steps.filter Step.isIntoValue = values)
      (depth_eq : maxSchemaDepth + 1 = depth + steps.length) :
      Counted s depth values (.error { fault := .tooDeep maxSchemaDepth })
  | other {e : SchemaError} (fault : ∀ limit, e.fault ≠ .tooDeep limit) :
      Counted s depth values (.error e)

namespace Counted

variable {s t : Schema} {depth depth' : Nat} {values : List Step} {x : Except SchemaError Node}

/-- A walk that leads to where the count is right may be taken before. -/
theorem after {steps : List Step} (walk : s.Steps steps t)
    (hdepth : depth' = depth + steps.length) (h : t.Counted depth' values x) :
    s.Counted depth (steps.filter Step.isIntoValue ++ values) x := by
  cases h with
  | node hwalk hvalues hcount hle =>
    refine .node (walk.append hwalk) ?_ ?_ hle
    · rw [List.filter_append, hvalues]
    · rw [hcount, hdepth, List.length_append, Nat.add_assoc]
  | tooDeep hwalk hvalues hcount =>
    refine .tooDeep (walk.append hwalk) ?_ ?_
    · rw [List.filter_append, hvalues]
    · rw [hcount, hdepth, List.length_append, Nat.add_assoc]
  | other hfault => exact .other hfault

theorem after_step {step : Step} (hstep : s.Holds step t) (h : t.Counted (depth + 1) values x) :
    s.Counted depth ([step].filter Step.isIntoValue ++ values) x :=
  h.after (.step hstep (.here t)) rfl

theorem describedBy {n : Node} (h : s.Counted depth values (.ok n)) (description : Option String) :
    s.Counted depth values (.ok (n.describedBy description)) := by
  cases h with
  | node walk hvalues hcount hle =>
    cases n
    cases description <;> exact .node walk hvalues hcount hle

/-- Why a map has no values is told differently, but not if it is because of the depth. -/
theorem mapValueError (h : s.Counted depth values x) :
    s.Counted depth values (x.mapError ProviderSchema.mapValueError) := by
  cases h with
  | node walk hvalues hcount hle => exact .node walk hvalues hcount hle
  | tooDeep walk hvalues hcount => exact .tooDeep walk hvalues hcount
  | other hfault =>
    refine .other fun limit => ?_
    unfold ProviderSchema.mapValueError
    split
    · simp
    · exact hfault limit

end Counted

end Schema

end OpenApi

/-! ## Compositions -/

/-- If a schema is too deep for a composition, it is a member that is, or the composition
has no members and is too deep itself. -/
theorem Branch.ofComposition_eq_error {description : Option String}
    {allOf anyOf oneOf : List (Except SchemaError Branch)} {own : Except SchemaError Branch}
    {e : SchemaError} (h : ofComposition description allOf anyOf oneOf own = .error e) {limit : Nat}
    (hfault : e.fault = .tooDeep limit) : .error e ∈ allOf ++ anyOf ++ oneOf ∨ own = .error e := by
  have hpair {a b : Except SchemaError Branch}
      (h : (ofPair a b).map (describedBy description) = .error e) :
      a = .error e ∨ b = .error e := by
    rw [map_eq_error_iff, ofPair_eq_bind, bind_eq_error_iff] at h
    rcases h with ha | ⟨a', -, h⟩
    · exact .inl ha
    · rw [bind_eq_error_iff] at h
      rcases h with hb | ⟨b', -, h⟩
      · exact .inr hb
      · obtain ⟨names, rfl⟩ := survivor_eq_error (map_eq_error_iff.mp h)
        cases hfault
  unfold ofComposition at h
  split at h
  · rw [map_eq_error_iff.mp h]
    simp
  · cases h
    cases hfault
  · rcases hpair h with rfl | rfl <;> simp
  · cases h
    cases hfault
  · rcases hpair h with rfl | rfl <;> simp
  · cases h
    cases hfault
  · exact .inr h

namespace OpenApi.Schema

theorem fault_ne_tooDeep_of_ownBranch {depth : Nat} {location : List String} {k : Keywords}
    {c : Children Schema} {e : SchemaError} (h : ownBranch depth location k c = .error e)
    (limit : Nat) : e.fault ≠ .tooDeep limit := by
  unfold ownBranch at h
  split at h <;> cases h
  obtain rfl | ⟨_, rfl⟩ | ⟨_, rfl⟩ := kindOf_eq_error ‹_› <;> simp

theorem exists_holds_of_mem_composition {k : Keywords} {c : Children Schema} {s : Schema}
    (h : s ∈ c.allOf ++ c.anyOf ++ c.oneOf) :
    ∃ step : Step, step.isIntoValue = false ∧ (Schema.inline k c).Holds step s := by
  obtain ⟨step, hstep, hchild⟩ := Children.exists_child?_of_mem_composition h
  refine ⟨step, ?_, .member hstep hchild⟩
  cases step <;> first | rfl | cases hstep

/-- The steps from a composition to the schema of its node are counted right: of the way
through the members, none of which is a step to a value. -/
theorem counted_branch (s : Schema) {depth : Nat} (hdepth : depth ≤ maxSchemaDepth + 1)
    (location : List String) :
    s.Counted depth [] ((branch depth location s).bind Branch.toNode) := by
  induction s using inductionOnHeld generalizing depth location with
  | reference target =>
    by_cases hdeep : maxSchemaDepth < depth
    · rw [branch_of_lt hdeep]
      exact .tooDeep (.here _) rfl (by rw [List.length_nil]; omega)
    · rw [branch, if_neg hdeep]
      exact .other fun limit => by simp
  | inline keywords c ih =>
    by_cases hdeep : maxSchemaDepth < depth
    · rw [branch_of_lt hdeep]
      exact .tooDeep (.here _) rfl (by rw [List.length_nil]; omega)
    -- a member is one step deeper, and is reached without a step to a value
    have hmember {t : Schema} (ht : t ∈ c.allOf ++ c.anyOf ++ c.oneOf) :
        (Schema.inline keywords c).Counted depth []
          ((branch (depth + 1) (keywords.location location) t).bind Branch.toNode) := by
      obtain ⟨step, hstep, hholds⟩ := exists_holds_of_mem_composition ht
      have hcounted := (ih t (.composed ht) (Nat.succ_le_succ (Nat.le_of_not_lt hdeep))
        (keywords.location location)).after_step hholds
      rwa [List.filter_singleton, hstep] at hcounted
    cases hnode : (branch depth location (.inline keywords c)).bind Branch.toNode with
    | ok n =>
      obtain ⟨-, ⟨t, ht, m, hm, rfl⟩ | ⟨-, kind, -, rfl⟩⟩ :=
        branch_inline_inversion (Branch.bind_toNode_eq_ok_iff.mp hnode)
      · have hcounted := hmember ht
        rw [hm] at hcounted
        exact hcounted.describedBy keywords.description
      · exact .node (.here _) rfl rfl (Nat.le_of_not_lt hdeep)
    | error e =>
      rw [bind_eq_error_iff] at hnode
      rcases hnode with herror | ⟨b, -, hb⟩
      · by_cases hfault : ∃ limit, e.fault = .tooDeep limit
        · obtain ⟨limit, hlimit⟩ := hfault
          rw [branch_inline (Nat.le_of_not_lt hdeep)] at herror
          rcases Branch.ofComposition_eq_error herror hlimit with hmem | hown
          · rw [← List.map_append, ← List.map_append, List.mem_map] at hmem
            obtain ⟨t, ht, hfails⟩ := hmem
            have hcounted := hmember ht
            rwa [hfails] at hcounted
          · exact absurd hlimit (fault_ne_tooDeep_of_ownBranch hown limit)
        · exact .other (not_exists.mp hfault)
      · -- `null` alone is no node, however deep it is
        cases b <;> cases hb
        exact .other fun limit => by simp

end OpenApi.Schema

/-! ## Children -/

namespace Node

/-- A child of a node, or the error in its place, and the step that leads to it. -/
inductive HoldsAt (n : Node) : Step → Except SchemaError Node → Prop where
  | property {p : Property} {child : Except SchemaError Node} (h : (p, child) ∈ n.properties) :
      HoldsAt n (.property p.original) child
  | items : HoldsAt n .items n.items
  | mapValue : HoldsAt n .additional n.mapValue

/-- From a node, or the error in its place, steps lead to a node below it, or to an error
in the place of one. -/
inductive Leads : Except SchemaError Node → List Step → Except SchemaError Node → Prop where
  | here (x : Except SchemaError Node) : Leads x [] x
  | step {n : Node} {step : Step} {child last : Except SchemaError Node} {steps : List Step}
      (h : n.HoldsAt step child) (rest : Leads child steps last) :
      Leads (.ok n) (step :: steps) last

theorem HoldsAt.of_describedBy {n : Node} {description : Option String} {step : Step}
    {child : Except SchemaError Node} (h : (n.describedBy description).HoldsAt step child) :
    n.HoldsAt step child := by
  obtain ⟨facts, properties, items, mapValue⟩ := n
  cases description <;> cases h <;> first
    | exact .property ‹_›
    | exact .items
    | exact .mapValue

end Node

namespace OpenApi.Schema

/-- What stands in the place of a child is what a schema at a depth stands for, or says that
there is no schema. -/
def Yields (s : Schema) (depth : Nat) (x : Except SchemaError Node) : Prop :=
  ∃ location, x = (branch depth location s).bind Branch.toNode ∨
    x = ((branch depth location s).bind Branch.toNode).mapError mapValueError

theorem Yields.counted {s : Schema} {depth : Nat} {x : Except SchemaError Node}
    (h : s.Yields depth x) (hdepth : depth ≤ maxSchemaDepth + 1) : s.Counted depth [] x := by
  obtain ⟨location, rfl | rfl⟩ := h
  · exact counted_branch s hdepth location
  · exact (counted_branch s hdepth location).mapValueError

theorem itemNode_yields (depth : Nat) (location : List String) (items : Option (Items Schema)) :
    itemNode depth location items = .error { fault := .noItems } ∨
      ∃ t, items = some (.schema t) ∧ t.Yields depth (itemNode depth location items) := by
  unfold itemNode
  split
  · exact .inr ⟨_, rfl, _, .inl rfl⟩
  · exact .inl rfl

theorem valueNode_yields (depth : Nat) (location : List String)
    (additional : Option (Additional Schema)) :
    valueNode depth location additional = .error { fault := .noMapValue } ∨
      ∃ t, additional = some (.schema t) ∧
        t.Yields depth (valueNode depth location additional) := by
  unfold valueNode
  split
  · exact .inr ⟨_, rfl, _, .inr rfl⟩
  · exact .inl rfl

/-- In the place of a child of a node stands what a child schema yields one step deeper, or
an error that has nothing to do with the depth. -/
def YieldsBelow (n : Node) : Prop :=
  ∀ step child, n.HoldsAt step child → step.isIntoValue = true ∧
    ((∃ t, n.schema.Holds step t ∧ t.Yields (n.facts.depth + 1) child) ∨
      ∃ e : SchemaError, child = .error e ∧ ∀ limit, e.fault ≠ .tooDeep limit)

theorem yieldsBelow_ownNode (depth : Nat) (location : List String) (k : Keywords)
    (c : Children Schema) (kind : SchemaKind) : YieldsBelow (ownNode depth location k c kind) := by
  intro step child hchild
  cases hchild with
  | @property p child hmem =>
    have hentry := (mem_of_mem_arrange hmem).2
    rw [propertyNodes_eq_map, List.mem_map] at hentry
    obtain ⟨⟨name, t⟩, ht, heq⟩ := hentry
    obtain ⟨rfl, rfl⟩ := Prod.mk.inj heq
    exact ⟨rfl, .inl ⟨t, .property ht, _, .inl rfl⟩⟩
  | items =>
    refine ⟨rfl, ?_⟩
    rcases itemNode_yields (depth + 1) location c.items with hnone | ⟨t, ht, hyields⟩
    · exact .inr ⟨_, hnone, fun limit => by simp⟩
    · exact .inl ⟨t, .items ht, hyields⟩
  | mapValue =>
    refine ⟨rfl, ?_⟩
    rcases valueNode_yields (depth + 1) location c.additional with hnone | ⟨t, ht, hyields⟩
    · exact .inr ⟨_, hnone, fun limit => by simp⟩
    · exact .inl ⟨t, .additional ht, hyields⟩

theorem yieldsBelow_of_branch {s : Schema} {depth : Nat} {location : List String} {n : Node}
    (h : branch depth location s = .ok (.node n)) : YieldsBelow n := by
  refine forall_of_branch_eq_ok (fun n hn description => ?_)
    (fun c _ depth location k kind => yieldsBelow_ownNode depth location k c kind)
    s depth location n h
  intro step child hchild
  have hyields := hn step child hchild.of_describedBy
  cases n
  cases description <;> exact hyields

theorem Yields.yieldsBelow {s : Schema} {depth : Nat} {n : Node} (h : s.Yields depth (.ok n)) :
    YieldsBelow n := by
  obtain ⟨location, h | h⟩ := h
  · exact yieldsBelow_of_branch (Branch.bind_toNode_eq_ok_iff.mp h.symm)
  · exact yieldsBelow_of_branch
      (Branch.bind_toNode_eq_ok_iff.mp (mapError_eq_ok_iff.mp h.symm))

/-- Of whatever a node leads to the steps are counted right from the schema of the node. -/
theorem Yields.counted_of_leads {x last : Except SchemaError Node} {steps : List Step}
    (hleads : Node.Leads x steps last) {s : Schema} {depth : Nat} (h : s.Yields depth x)
    (hdepth : depth ≤ maxSchemaDepth + 1) : s.Counted depth steps last := by
  -- by induction on the steps; the walk of each starts where that to the node before it ends
  induction hleads generalizing s depth with
  | here => exact h.counted hdepth
  | @step n step child last steps hholds hrest ih =>
    cases h.counted hdepth with
    | @node _ before walk hvalues hcount hle =>
      obtain ⟨hstep, ⟨t, ht, hyields⟩ | ⟨e, rfl, hother⟩⟩ := h.yieldsBelow step child hholds
      · have hcounted := ((ih hyields (Nat.succ_le_succ hle)).after_step ht).after walk hcount
        rwa [hvalues, List.filter_singleton, hstep] at hcounted
      · cases hrest
        exact .other hother

/-- So it is below the root. -/
theorem counted_of_leads {s : Schema} {root : Node} (hroot : s.node = .ok root) {steps : List Step}
    {last : Except SchemaError Node} (hleads : Node.Leads (.ok root) steps last) :
    s.Counted 0 steps last :=
  Yields.counted_of_leads hleads ⟨[], .inl hroot.symm⟩ (Nat.zero_le _)

end OpenApi.Schema

end ProviderSchema
