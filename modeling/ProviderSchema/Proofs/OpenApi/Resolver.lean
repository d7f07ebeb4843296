import Mathlib.Data.Finset.Basic
import Mathlib.Data.Finset.Dedup
import ProviderSchema.Proofs.OpenApi.Expansion

/-!
# Inlining with one set of visited references

Inlining can be run with a single set of references, the ones that are being
expanded.  A reference is put into the set before its target is resolved and
taken out again afterwards, and the set goes from one child of a schema to the
next, and from one part of a description to the next.  `Schema.resolveReference`,
`Schema.traverse` and `Description.resolve` run like that, and give up where more
than a given number of expansions are nested.

The run never gives up if it may nest as many expansions as there are component
schemas.  It then yields the inlined schema and leaves the set as it was
(`Schema.run_traverse_inlined`).  So each schema of a description starts with the
empty set again, whatever came before it, and the run over all of its parts
yields the inlined description (`Description.run_resolve`), which is what a
provider is generated from.
-/

namespace ProviderSchema.OpenApi

namespace Schema

/-! ## Runs -/

mutual

/-- A schema with what `f` makes of its references, one after the other; the
members of a tuple stay as they are. -/
def traverse {m : Type → Type} [Monad m] (f : String → m Schema) : Schema → m Schema
  | .reference target => f target
  | .inline keywords ⟨properties, additional, items, allOf, oneOf, anyOf⟩ => do
    let properties ← traverseTable f properties
    let items ← match items with
      | some (.schema s) => do
        let s ← traverse f s
        pure (some (.schema s))
      | other => pure other
    let allOf ← traverseList f allOf
    let oneOf ← traverseList f oneOf
    let anyOf ← traverseList f anyOf
    let additional ← match additional with
      | some (.schema s) => do
        let s ← traverse f s
        pure (some (.schema s))
      | other => pure other
    return .inline keywords ⟨properties, additional, items, allOf, oneOf, anyOf⟩

/-- The schemas of a table, from the first to the last. -/
def traverseTable {m : Type → Type} [Monad m] (f : String → m Schema) :
    List (String × Schema) → m (List (String × Schema))
  | [] => return []
  | (name, s) :: rest => do
    let s ← traverse f s
    let rest ← traverseTable f rest
    return (name, s) :: rest

/-- The schemas of a list, from the first to the last. -/
def traverseList {m : Type → Type} [Monad m] (f : String → m Schema) :
    List Schema → m (List Schema)
  | [] => return []
  | s :: rest => do
    let s ← traverse f s
    let rest ← traverseList f rest
    return s :: rest

end

/-- What a reference is replaced with, in a run that may nest a number of
expansions.  The state are the references that are being expanded. -/
def resolveReference (schemas : List (String × Schema)) :
    Nat → String → StateT (Finset String) Option Schema
  | expansions, target => do
    let visited ← get
    if target ∈ visited then
      return .reference target
    match lookup schemas target with
    | .error _ => return .reference target
    | .ok (name, s) =>
      match expansions with
      | 0 => failure
      | expansions + 1 =>
        modify (insert target)
        let result ← s.traverse (resolveReference schemas expansions)
        modify (Finset.erase · target)
        return result.copiedFrom name

/-! ## What a run yields -/

section Traverse

variable {σ : Type} {f : String → StateT σ Option Schema} {g : String → Schema} {v : σ}

theorem run_traverseList {l : List Schema}
    (h : ∀ s ∈ l, (s.traverse f).run v = some (s.substitute g, v)) :
    (traverseList f l).run v = some (l.map (substitute g), v) := by
  induction l with
  | nil => rfl
  | cons s rest ih =>
    rw [List.forall_mem_cons] at h
    simp [traverseList, h.1, ih h.2]

theorem run_traverseTable {table : List (String × Schema)}
    (h : ∀ entry ∈ table, (entry.2.traverse f).run v = some (entry.2.substitute g, v)) :
    (traverseTable f table).run v =
      some (table.map fun (name, s) => (name, s.substitute g), v) := by
  induction table with
  | nil => rfl
  | cons entry rest ih =>
    rw [List.forall_mem_cons] at h
    simp [traverseTable, h.1, ih h.2]

/-- If every reference is replaced without a change of the state, then so are
all references of a schema. -/
theorem run_traverse (hf : ∀ target, (f target).run v = some (g target, v)) (s : Schema) :
    (s.traverse f).run v = some (s.substitute g, v) := by
  induction s using Schema.inductionOnHeld with
  | reference target =>
    rw [traverse, substitute_reference]
    exact hf target
  | inline keywords c ih =>
    rw [substitute_inline]
    obtain ⟨properties, additional, items, allOf, oneOf, anyOf⟩ := c
    have hproperties : (traverseTable f properties).run v =
        some (properties.map fun (name, s) => (name, s.substitute g), v) :=
      run_traverseTable fun entry h => ih entry.2 (.property entry.1 h)
    have hall : (traverseList f allOf).run v = some (allOf.map (substitute g), v) :=
      run_traverseList fun s h => ih s (.composed (by simp [h]))
    have hone : (traverseList f oneOf).run v = some (oneOf.map (substitute g), v) :=
      run_traverseList fun s h => ih s (.composed (by simp [h]))
    have hany : (traverseList f anyOf).run v = some (anyOf.map (substitute g), v) :=
      run_traverseList fun s h => ih s (.composed (by simp [h]))
    have hitems : ∀ s, items = some (.schema s) →
        (s.traverse f).run v = some (s.substitute g, v) := fun s h => ih s (.items h)
    have hadditional : ∀ s, additional = some (.schema s) →
        (s.traverse f).run v = some (s.substitute g, v) := fun s h => ih s (.additional h)
    rcases items with _ | ⟨_ | _ | item⟩ <;> rcases additional with _ | ⟨_ | value⟩ <;>
      simp_all [traverse, substituteChildren]

end Traverse

variable {schemas : List (String × Schema)}

theorem run_resolveReference_of_mem {visited : Finset String} {target : String}
    (h : target ∈ visited) (expansions : Nat) :
    (resolveReference schemas expansions target).run visited =
      some (.reference target, visited) := by
  unfold resolveReference
  simp [h]

theorem run_resolveReference_of_lookup_eq_error {target : String} {e : ReferenceError}
    (h : lookup schemas target = .error e) (expansions : Nat) (visited : Finset String) :
    (resolveReference schemas expansions target).run visited =
      some (.reference target, visited) := by
  unfold resolveReference
  by_cases hmem : target ∈ visited <;> simp [h]

/-- A reference is expanded: its target is resolved while the reference is in
the set. -/
theorem run_resolveReference_of_lookup_eq_ok {expansions : Nat} {visited : Finset String}
    {target name : String} {s result : Schema} (h : lookup schemas target = .ok (name, s))
    (hnew : target ∉ visited)
    (hrun : (s.traverse (resolveReference schemas expansions)).run (insert target visited) =
      some (result, insert target visited)) :
    (resolveReference schemas (expansions + 1) target).run visited =
      some (result.copiedFrom name, visited) := by
  rw [resolveReference]
  simp [h, hnew, hrun, Finset.erase_insert hnew]

/-- A run that may nest as many expansions as component schemas are left does
not give up, and leaves the set of references as it was. -/
theorem run_resolveReference {expansions : Nat} {visited : List String}
    (hleft : expansionsLeft schemas visited ≤ expansions) (target : String) :
    (resolveReference schemas expansions target).run visited.toFinset =
      some (expand schemas expansions visited target, visited.toFinset) := by
  induction expansions generalizing visited target with
  | zero =>
    -- Nothing is left to expand, so the run does not get to where it would give up.
    rw [expand_of_expansionsLeft_eq_zero (by omega)]
    by_cases hmem : target ∈ visited
    · exact run_resolveReference_of_mem (by simpa using hmem) 0
    · cases hlookup : lookup schemas target with
      | error e => exact run_resolveReference_of_lookup_eq_error hlookup 0 _
      | ok entry =>
        have hlt := expansionsLeft_lt hlookup hmem
        omega
  | succ expansions ih =>
    rw [expand]
    split
    · rename_i hmem
      exact run_resolveReference_of_mem (by simpa using hmem) _
    · rename_i hnew
      split
      · rename_i e hlookup
        exact run_resolveReference_of_lookup_eq_error hlookup _ _
      · rename_i name s hlookup
        have hlt := expansionsLeft_lt hlookup hnew
        -- With the target in the set there is less left, as one expansion less may follow.
        refine run_resolveReference_of_lookup_eq_ok hlookup (by simpa using hnew) ?_
        rw [← List.toFinset_cons]
        exact run_traverse (fun other => ih (by omega) other) s

/-- A run from the empty set that may nest as many expansions as there are
component schemas, or more, yields the inlined schema and the empty set. -/
theorem run_traverse_inlined {expansions : Nat} (h : schemas.length ≤ expansions) (s : Schema) :
    (s.traverse (resolveReference schemas expansions)).run ∅ = some (s.inlined schemas, ∅) := by
  have hleft : expansionsLeft schemas [] ≤ schemas.length := expansionsLeft_le []
  have hcount : expand schemas expansions [] = expand schemas schemas.length [] :=
    expand_eq_expand (by omega) hleft
  have hrun (target : String) : (resolveReference schemas expansions target).run ∅ =
      some (expand schemas expansions [] target, ∅) :=
    run_resolveReference (hleft.trans h) target
  rw [inlined, ← hcount]
  exact run_traverse hrun s

end Schema

/-! ## Runs over the parts of a description -/

section Parts

variable {m : Type → Type} [Monad m]

/-- A thing that may be a reference: what `f` makes of it, or of the entry that
the reference stands for.  A reference without such an entry stays. -/
def OrReference.traverse {α : Type} (section_ : String) (table : List (String × OrReference α))
    (f : α → m α) (node : OrReference α) : m (OrReference α) :=
  match node with
  | .inline value => do
    let value ← f value
    return .inline value
  | .reference target =>
    match Reference.lookupInline section_ table target with
    | .ok value => do
      let value ← f value
      return .inline value
    | .error _ => return node

/-- A table, with what `f` makes of its entries. -/
def traverseEntries {α : Type} (f : String → α → m α) (table : List (String × α)) :
    m (List (String × α)) :=
  table.mapM fun (name, a) => do
    let a ← f name a
    return (name, a)

/-- Media types, with what `f` makes of their schemas. -/
def traverseContent (f : Schema → m Schema) (content : List (String × MediaType)) :
    m (List (String × MediaType)) :=
  content |> traverseEntries fun _ media => do
    let schema ← media.schema.mapM f
    return { media with schema }

namespace Components

/-- A parameter, with what `f` makes of its schema. -/
def traverseParameter (c : Components) (f : Schema → m Schema) (p : OrReference Parameter) :
    m (OrReference Parameter) :=
  p.traverse "parameters" c.parameters fun p => do
    let schema ← p.schema.mapM f
    return { p with schema }

/-- The body of a request, with what `f` makes of its schemas. -/
def traverseBody (c : Components) (f : Schema → m Schema) (b : OrReference RequestBody) :
    m (OrReference RequestBody) :=
  b.traverse "requestBodies" c.requestBodies fun b => do
    let content ← traverseContent f b.content
    return { b with content }

/-- A response, with what `f` makes of its schemas. -/
def traverseResponse (c : Components) (f : Schema → m Schema) (r : OrReference Response) :
    m (OrReference Response) :=
  r.traverse "responses" c.responses fun r => do
    let content ← traverseContent f r.content
    return { r with content }

/-- An operation: its parameters, its body and its responses, one after the
other. -/
def traverseOperation (c : Components) (f : Schema → m Schema) (o : Operation) :
    m Operation := do
  let parameters ← o.parameters.mapM (c.traverseParameter f)
  let requestBody ← o.requestBody.mapM (c.traverseBody f)
  let responses ← traverseEntries (fun _ => c.traverseResponse f) o.responses
  return { o with parameters, requestBody, responses }

/-- A path: its parameters, and its operations in the order of their methods. -/
def traversePathItem (c : Components) (f : Schema → m Schema) (item : PathItem) :
    m PathItem := do
  let parameters ← item.parameters.mapM (c.traverseParameter f)
  let get ← item.get.mapM (c.traverseOperation f)
  let post ← item.post.mapM (c.traverseOperation f)
  let put ← item.put.mapM (c.traverseOperation f)
  let delete ← item.delete.mapM (c.traverseOperation f)
  let patch ← item.patch.mapM (c.traverseOperation f)
  let options ← item.options.mapM (c.traverseOperation f)
  let head ← item.head.mapM (c.traverseOperation f)
  let trace ← item.trace.mapM (c.traverseOperation f)
  return { item with parameters, get, post, put, delete, patch, options, head, trace }

/-- The component schemas, each of them a copy of itself at least. -/
def traverseSchemas (c : Components) (f : Schema → m Schema) : m (List (String × Schema)) :=
  c.schemas |> traverseEntries fun name s => do
    let s ← f s
    return s.copiedFrom name

end Components

/-- A description: its paths, and then its component schemas.  References are
looked up in the components as they were. -/
def Description.traverse (f : Schema → m Schema) (d : Description) : m Description := do
  let c := d.components.getD {}
  let paths ← traverseEntries (fun _ => c.traversePathItem f) d.paths
  let components ← d.components.mapM fun c => do
    let schemas ← c.traverseSchemas f
    return { c with schemas }
  return { d with paths, components }

end Parts

/-- The description with its references resolved, in a run that may nest a number
of expansions.  The state are the references that are being expanded. -/
def Description.resolve (expansions : Nat) (d : Description) :
    StateT (Finset String) Option Description :=
  d.traverse fun s => s.traverse (Schema.resolveReference d.schemas expansions)

section RunParts

variable {α β σ : Type} {v : σ}

theorem run_mapM {f : α → StateT σ Option β} {g : α → β}
    (h : ∀ a, (f a).run v = some (g a, v)) (l : List α) :
    (l.mapM f).run v = some (l.map g, v) := by
  induction l with
  | nil => rfl
  | cons a rest ih => simp [h, ih]

theorem run_option_mapM {f : α → StateT σ Option β} {g : α → β}
    (h : ∀ a, (f a).run v = some (g a, v)) (o : Option α) :
    (o.mapM f).run v = some (o.map g, v) := by
  cases o with
  | none => rfl
  | some a => simp [h]

theorem run_traverseEntries {f : String → α → StateT σ Option α} {g : String → α → α}
    (h : ∀ name a, (f name a).run v = some (g name a, v)) (table : List (String × α)) :
    (traverseEntries f table).run v = some (table.map fun (name, a) => (name, g name a), v) :=
  run_mapM (fun entry => by simp [h]) table

theorem OrReference.run_traverse {section_ : String} {table : List (String × OrReference α)}
    {f : α → StateT σ Option α} {g : α → α} (h : ∀ a, (f a).run v = some (g a, v))
    (node : OrReference α) :
    (node.traverse section_ table f).run v = some (node.inlined section_ table g, v) := by
  cases node with
  | inline value => simp [traverse, inlined, h]
  | reference target =>
    cases hlookup : Reference.lookupInline section_ table target with
    | ok value => simp [traverse, inlined, hlookup, h]
    | error e => simp [traverse, inlined, hlookup]

variable {f : Schema → StateT σ Option Schema}

theorem run_traverseContent {g : Schema → Schema} (h : ∀ s, (f s).run v = some (g s, v))
    (content : List (String × MediaType)) :
    (traverseContent f content).run v = some (mapContent g content, v) := by
  refine run_traverseEntries (g := fun _ media => { media with schema := media.schema.map g })
    (fun name media => ?_) content
  simp [run_option_mapM h]

namespace Components

/-! If the schemas are inlined without a change of the state, then so is each part
that holds them. -/

variable {c : Components} (h : ∀ s, (f s).run v = some (s.inlined c.schemas, v))

include h

theorem run_traverseParameter (p : OrReference Parameter) :
    (c.traverseParameter f p).run v = some (c.inlinedParameter p, v) :=
  OrReference.run_traverse (fun p => by simp [run_option_mapM h]) p

theorem run_traverseBody (b : OrReference RequestBody) :
    (c.traverseBody f b).run v = some (c.inlinedBody b, v) :=
  OrReference.run_traverse (fun b => by simp [run_traverseContent h]) b

theorem run_traverseResponse (r : OrReference Response) :
    (c.traverseResponse f r).run v = some (c.inlinedResponse r, v) :=
  OrReference.run_traverse (fun r => by simp [run_traverseContent h]) r

theorem run_traverseOperation (o : Operation) :
    (c.traverseOperation f o).run v = some (c.inlinedOperation o, v) := by
  have hparameters := run_mapM (run_traverseParameter h) o.parameters
  have hbody := run_option_mapM (run_traverseBody h) o.requestBody
  have hresponses := run_traverseEntries (fun _ => run_traverseResponse h) o.responses
  simp [traverseOperation, inlinedOperation, hparameters, hbody, hresponses]

theorem run_traversePathItem (item : PathItem) :
    (c.traversePathItem f item).run v = some (c.inlinedPathItem item, v) := by
  have hparameters := run_mapM (run_traverseParameter h) item.parameters
  have hoperation := run_option_mapM (run_traverseOperation h)
  simp [traversePathItem, inlinedPathItem, hparameters, hoperation]

theorem run_traverseSchemas : (c.traverseSchemas f).run v = some (c.inlinedSchemas, v) := by
  refine run_traverseEntries (g := fun name s => (s.inlined c.schemas).copiedFrom name)
    (fun name s => ?_) c.schemas
  simp [h]

end Components

namespace Description

/-- If the schemas are inlined without a change of the state, then so is the
description. -/
theorem run_traverse {d : Description} (h : ∀ s, (f s).run v = some (s.inlined d.schemas, v)) :
    (d.traverse f).run v = some (d.inlined, v) := by
  obtain ⟨openapi, info, paths, components⟩ := d
  cases components with
  | none =>
    have hpaths := run_traverseEntries
      (fun _ => Components.run_traversePathItem (c := {}) h) paths
    simp [traverse, inlined, hpaths]
  | some c =>
    have hpaths := run_traverseEntries (fun _ => Components.run_traversePathItem (c := c) h) paths
    have hschemas : (c.traverseSchemas f).run v = some (c.inlinedSchemas, v) :=
      Components.run_traverseSchemas h
    simp [traverse, inlined, hpaths, hschemas]

/-- A run from the empty set that may nest as many expansions as there are
component schemas, or more, yields the inlined description and the empty set:
no part of a description leaves a reference in the set for the parts that follow
it. -/
theorem run_resolve {d : Description} {expansions : Nat} (h : d.schemas.length ≤ expansions) :
    (d.resolve expansions).run ∅ = some (d.inlined, ∅) :=
  run_traverse (Schema.run_traverse_inlined h)

end Description

end RunParts

end ProviderSchema.OpenApi
