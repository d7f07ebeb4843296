import Mathlib.Data.List.Basic
import ProviderSchema.OpenApi.Inlining
import ProviderSchema.Proofs.Document.Table

/-!
# Following references

`Schema.dereference?` is what a schema stands for when references are
followed one after the other through the component schemas: the first
inline schema on the way.  A schema is stuck if there is none, because a
reference is malformed, has no target or leads back to itself.

The definition keeps the names of the components it has passed, so that it
comes to an end.  `Schema.Leads` says the same thing without them, and
`dereference?_eq_some_iff` is the bridge.  Everything else uses only
`dereference?_reference`: a reference and its target stand for the same
thing.
-/

namespace ProviderSchema

namespace OpenApi.Schema

variable {schemas : List (String × Schema)}

theorem get?_of_lookup_eq_ok {target name : String} {schema : Schema}
    (h : lookup schemas target = .ok (name, schema)) :
    Table.get? schemas name = some schema := by
  unfold lookup Reference.lookup at h
  split at h
  · cases h
  · split at h
    · rename_i hget
      cases h
      exact hget
    · cases h

/-- Passing one more component leaves fewer components to pass. -/
theorem unvisited_lt {visited : List String} {name : String} {schema : Schema}
    (hget : Table.get? schemas name = some schema) (hnew : name ∉ visited) :
    (schemas.filter fun e => e.1 ∉ name :: visited).length <
      (schemas.filter fun e => e.1 ∉ visited).length := by
  have hsplit : (schemas.filter fun e => e.1 ∉ name :: visited) =
      (schemas.filter fun e => e.1 ∉ visited).filter fun e => e.1 ≠ name := by
    rw [List.filter_filter]
    congr 1
    funext e
    simp
  rw [hsplit, List.length_filter_lt_length_iff_exists]
  refine ⟨(name, schema), ?_, by simp⟩
  rw [List.mem_filter]
  exact ⟨Table.mem_of_get?_eq_some hget, by simpa using hnew⟩

/-! ## The definition -/

/-- The inline schema that a schema leads to; `visited` are the components
that were passed on the way. -/
def follow? (schemas : List (String × Schema)) (visited : List String) :
    Schema → Option (Keywords × Children Schema)
  | .inline keywords children => some (keywords, children)
  | .reference target =>
    match _h : lookup schemas target with
    | .error _ => none
    | .ok (name, schema) =>
      if name ∈ visited then none else follow? schemas (name :: visited) schema
termination_by (schemas.filter fun e => e.1 ∉ visited).length
decreasing_by exact unvisited_lt (get?_of_lookup_eq_ok _h) ‹_›

/-- The inline schema that a schema stands for, unless it is stuck. -/
def dereference? (schemas : List (String × Schema)) (schema : Schema) :
    Option (Keywords × Children Schema) :=
  follow? schemas [] schema

/-! ## Chains of references -/

/-- A schema leads to an inline schema past a number of references. -/
inductive Leads (schemas : List (String × Schema)) :
    Nat → Schema → Keywords × Children Schema → Prop where
  | inline (keywords : Keywords) (children : Children Schema) :
      Leads schemas 0 (.inline keywords children) (keywords, children)
  | reference {n : Nat} {target name : String} {schema : Schema}
      {found : Keywords × Children Schema}
      (h : lookup schemas target = .ok (name, schema))
      (rest : Leads schemas n schema found) :
      Leads schemas (n + 1) (.reference target) found

/-- The number of references depends on the schema alone. -/
theorem Leads.length_eq {n m : Nat} {schema : Schema}
    {found found' : Keywords × Children Schema}
    (h : Leads schemas n schema found) (h' : Leads schemas m schema found') :
    n = m := by
  induction h generalizing m with
  | inline => cases h'; rfl
  | reference h _ ih =>
    cases h' with
    | reference h'' rest =>
      rw [h] at h''
      cases h''
      rw [ih rest]

theorem Leads.of_follow? {visited : List String} {schema : Schema}
    {found : Keywords × Children Schema}
    (h : follow? schemas visited schema = some found) :
    ∃ n, Leads schemas n schema found := by
  fun_induction follow? schemas visited schema with
  | case1 =>
    cases h
    exact ⟨0, .inline _ _⟩
  | case2 => cases h
  | case3 => cases h
  | case4 visited target name schema hlookup _ ih =>
    obtain ⟨n, hn⟩ := ih h
    exact ⟨n + 1, .reference hlookup hn⟩

/-- A chain is followed to its end if the components passed before lie no
nearer to an end than where it begins.  They then cannot be on it. -/
theorem Leads.follow?_eq_some {n : Nat} {schema : Schema}
    {found : Keywords × Children Schema} (h : Leads schemas n schema found)
    {visited : List String}
    (hvisited : ∀ name ∈ visited, ∀ passed m found',
      Table.get? schemas name = some passed →
      Leads schemas m passed found' → n ≤ m) :
    follow? schemas visited schema = some found := by
  induction h generalizing visited with
  | inline => rw [follow?]
  | @reference n target name schema found h rest ih =>
    have hget := get?_of_lookup_eq_ok h
    have hnew : name ∉ visited := fun hmem =>
      Nat.not_succ_le_self n (hvisited name hmem schema n found hget rest)
    have hrest : follow? schemas (name :: visited) schema = some found := by
      apply ih
      intro other hmem passed m found' hpassed hleads
      rcases List.mem_cons.mp hmem with rfl | hmem
      · rw [hget] at hpassed
        cases hpassed
        exact Nat.le_of_eq (rest.length_eq hleads)
      · have := hvisited other hmem passed m found' hpassed hleads
        omega
    rw [follow?]
    split
    · rename_i h'
      rw [h] at h'
      cases h'
    · rename_i h'
      rw [h] at h'
      cases h'
      rw [if_neg hnew, hrest]

theorem dereference?_eq_some_iff {schema : Schema}
    {found : Keywords × Children Schema} :
    dereference? schemas schema = some found ↔ ∃ n, Leads schemas n schema found := by
  constructor
  · exact Leads.of_follow?
  · rintro ⟨n, h⟩
    exact h.follow?_eq_some (by simp)

/-! ## What the definition means for its callers -/

@[simp] theorem dereference?_inline (schemas : List (String × Schema))
    (keywords : Keywords) (children : Children Schema) :
    dereference? schemas (.inline keywords children) = some (keywords, children) := by
  rw [dereference?, follow?]

/-- A reference and its target stand for the same thing. -/
theorem dereference?_reference {target name : String} {schema : Schema}
    (h : lookup schemas target = .ok (name, schema)) :
    dereference? schemas (.reference target) = dereference? schemas schema := by
  apply Option.ext
  intro found
  rw [dereference?_eq_some_iff, dereference?_eq_some_iff]
  constructor
  · rintro ⟨_, hleads⟩
    cases hleads with
    | reference h' rest =>
      rw [h] at h'
      cases h'
      exact ⟨_, rest⟩
  · rintro ⟨n, hleads⟩
    exact ⟨n + 1, .reference h hleads⟩

end OpenApi.Schema

end ProviderSchema
