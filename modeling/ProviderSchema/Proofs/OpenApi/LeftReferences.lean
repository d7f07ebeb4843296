import Mathlib.Logic.Relation
import ProviderSchema.Proofs.OpenApi.Mentions
import ProviderSchema.Proofs.OpenApi.Resolver

/-!
# The references that inlining leaves

While the references of a schema are inlined, a reference is met at a place of
the result with a chain of references that are being expanded: those that were
expanded on the way from the schema to that place.  `Meets` says so, and
`at?_inlinedBelow_of_meets` says what stands at the place then.

A reference stays exactly if it is met with a chain that it is on, or if it has
no target (`InlinesTo.left`).  A chain has no reference twice and is no longer
than the table of component schemas.  So what stays although it has a target
leads back to itself: `Refers` is the graph of the references among component
schemas, and the component of such a reference lies on a cycle of it.
-/

namespace ProviderSchema.OpenApi.Schema

/-! ## Places -/

/-- The schema at the end of steps from child to child. -/
def at? : List Step → Schema → Option Schema
  | [], s => some s
  | step :: rest, .inline _ c => (c.child? step).bind (at? rest)
  | _ :: _, .reference _ => none

theorem at?_copiedFrom_cons (name : String) (s : Schema) (step : Step) (rest : List Step) :
    (s.copiedFrom name).at? (step :: rest) = s.at? (step :: rest) := by
  cases s <;> rfl

@[simp] theorem copiedFrom_eq_reference_iff {name target : String} {s : Schema} :
    s.copiedFrom name = .reference target ↔ s = .reference target := by
  cases s <;> simp [copiedFrom]

theorem copiedFrom_copiedFrom (name name' : String) (s : Schema) :
    (s.copiedFrom name).copiedFrom name' = s.copiedFrom name := by
  cases s <;> simp [copiedFrom]

variable {schemas : List (String × Schema)}

/-! ## Meeting references -/

/-- While the references of a schema are inlined, those in `visited` being
expanded already, a reference is met at a place with a chain of references that
are being expanded.  The members of a tuple are no places. -/
inductive Meets (schemas : List (String × Schema)) :
    List String → Schema → List Step → List String → String → Prop where
  | here (visited : List String) (target : String) :
      Meets schemas visited (.reference target) [] visited target
  | target {visited chain : List String} {target name met : String} {s : Schema}
      {path : List Step} (hnew : target ∉ visited)
      (hlookup : lookup schemas target = .ok (name, s))
      (below : Meets schemas (target :: visited) s path chain met) :
      Meets schemas visited (.reference target) path chain met
  | child {visited chain : List String} {keywords : Keywords} {c : Children Schema}
      {step : Step} {s : Schema} {path : List Step} {met : String}
      (hstep : step.isIntoTuple = false) (hchild : c.child? step = some s)
      (below : Meets schemas visited s path chain met) :
      Meets schemas visited (.inline keywords c) (step :: path) chain met

variable {visited chain : List String} {s : Schema} {path : List Step} {met : String}

/-- A chain takes up component schemas. -/
theorem Meets.length_add_expansionsLeft_le (h : Meets schemas visited s path chain met) :
    chain.length + expansionsLeft schemas chain ≤
      visited.length + expansionsLeft schemas visited := by
  induction h with
  | here => exact Nat.le_refl _
  | target hnew hlookup _ ih =>
    have hlt := expansionsLeft_lt hlookup hnew
    rw [List.length_cons] at ih
    omega
  | child _ _ _ ih => exact ih

theorem Meets.nodup (h : Meets schemas visited s path chain met) (hvisited : visited.Nodup) :
    chain.Nodup := by
  induction h with
  | here => exact hvisited
  | target hnew _ _ ih => exact ih (List.nodup_cons.mpr ⟨hnew, hvisited⟩)
  | child _ _ _ ih => exact ih hvisited

/-- What stands at the place where a reference is met is what becomes of the
reference there. -/
theorem at?_inlinedBelow_of_meets (h : Meets schemas visited s path chain met) :
    (s.inlinedBelow schemas visited).at? path =
      some (inlinedBelow schemas chain (.reference met)) := by
  induction h with
  | here => rfl
  | @target visited chain target name met s path hnew hlookup _ ih =>
    rw [inlinedBelow_of_lookup_eq_ok hlookup hnew]
    cases path with
    | cons step rest => rw [at?_copiedFrom_cons, ih]
    | nil =>
      -- The target is a reference itself, and what it became is a copy already.
      have hbelow : s.inlinedBelow schemas (target :: visited) =
          inlinedBelow schemas chain (.reference met) := Option.some_inj.mp ih
      have hcopy : (inlinedBelow schemas chain (.reference met)).copiedFrom name =
          inlinedBelow schemas chain (.reference met) := by
        rw [inlinedBelow_reference]
        split
        · rfl
        · split
          · rfl
          · exact copiedFrom_copiedFrom _ _ _
      rw [hbelow, hcopy]
      rfl
  | @child visited chain keywords c step s path met hstep hchild _ ih =>
    rw [inlinedBelow_inline, at?, child?_substituteChildren, if_neg (by simp [hstep]), hchild]
    exact ih

/-! ## What stays -/

/-- A reference that is met with a chain stays: it is not written as a reference
to a component schema, there is no such component schema, or the reference is on
the chain. -/
def Stays (schemas : List (String × Schema)) (chain : List String) (met : String) : Prop :=
  (∀ name, met ≠ Reference.text "schemas" name) ∨
    (∃ name, met = Reference.text "schemas" name ∧ Table.get? schemas name = none) ∨
      met ∈ chain

/-- The first two reasons to stay are that there is no target. -/
theorem stays_iff :
    Stays schemas chain met ↔ (∃ e, lookup schemas met = .error e) ∨ met ∈ chain := by
  unfold Stays
  rw [← or_assoc]
  refine or_congr ?_ Iff.rfl
  constructor
  · intro h
    cases hlookup : lookup schemas met with
    | error e => exact ⟨e, rfl⟩
    | ok entry =>
      obtain ⟨htext, hget⟩ := (Reference.lookup_eq_ok_iff (by decide)).mp hlookup
      rcases h with h | ⟨name, hname, hnone⟩
      · exact absurd htext (h _)
      · rw [hname, Reference.text_inj] at htext
        rw [htext, hget] at hnone
        cases hnone
  · rintro ⟨e, he⟩
    by_cases hname : ∃ name, met = Reference.text "schemas" name
    · obtain ⟨name, hname⟩ := hname
      refine .inr ⟨name, hname, ?_⟩
      cases hget : Table.get? schemas name with
      | none => rfl
      | some s =>
        have hlookup : lookup schemas met = .ok (name, s) :=
          (Reference.lookup_eq_ok_iff (by decide)).mpr ⟨hname, hget⟩
        rw [he] at hlookup
        cases hlookup
    · rw [not_exists] at hname
      exact .inl hname

theorem inlinedBelow_of_stays (h : Stays schemas chain met) :
    inlinedBelow schemas chain (.reference met) = .reference met := by
  rcases stays_iff.mp h with ⟨e, he⟩ | hmem
  · exact inlinedBelow_of_lookup_eq_error he chain
  · exact inlinedBelow_of_mem hmem

theorem exists_meets_of_stays {target : String} (hstays : Stays schemas visited target)
    (h : at? path (.reference target) = some (.reference met)) :
    ∃ chain, Meets schemas visited (.reference target) path chain met ∧
      Stays schemas chain met := by
  cases path with
  | nil =>
    cases h
    exact ⟨visited, .here visited _, hstays⟩
  | cons step rest => cases h

/-- A reference that stands at a place of the result was met there, and stays. -/
theorem exists_meets_of_at?_inlinedBelow (visited : List String) (s : Schema)
    {path : List Step} {met : String} (hpath : ∀ step ∈ path, step.isIntoTuple = false)
    (h : (s.inlinedBelow schemas visited).at? path = some (.reference met)) :
    ∃ chain, Meets schemas visited s path chain met ∧ Stays schemas chain met := by
  induction visited, s using inductionOnInlining schemas generalizing path with
  | visited visited target hmem =>
    rw [inlinedBelow_of_mem hmem] at h
    exact exists_meets_of_stays (stays_iff.mpr (.inr hmem)) h
  | unknown visited target e hlookup =>
    rw [inlinedBelow_of_lookup_eq_error hlookup] at h
    exact exists_meets_of_stays (stays_iff.mpr (.inl ⟨e, hlookup⟩)) h
  | expanded visited target name s hnew hlookup ih =>
    rw [inlinedBelow_of_lookup_eq_ok hlookup hnew] at h
    have hbelow : (s.inlinedBelow schemas (target :: visited)).at? path =
        some (.reference met) := by
      cases path with
      | nil => simpa [at?] using h
      | cons step rest => rwa [at?_copiedFrom_cons] at h
    obtain ⟨chain, hmeets, hstays⟩ := ih hpath hbelow
    exact ⟨chain, .target hnew hlookup hmeets, hstays⟩
  | inline visited keywords c ih =>
    rw [inlinedBelow_inline] at h
    cases path with
    | nil => cases h
    | cons step rest =>
      rw [List.forall_mem_cons] at hpath
      -- The members of a tuple would stay as they are, but the path leads into none.
      rw [at?, child?_substituteChildren, if_neg (by simp [hpath.1])] at h
      cases hchild : c.child? step with
      | none =>
        rw [hchild] at h
        cases h
      | some child =>
        rw [hchild] at h
        obtain ⟨chain, hmeets, hstays⟩ := ih child (c.holds_of_child?_eq_some hchild) hpath.2 h
        exact ⟨chain, .child hpath.1 hchild hmeets, hstays⟩

/-! ## What stays although it has a target -/

/-- From the target of a reference on the chain on, the way is the same. -/
theorem Meets.from_target (h : Meets schemas visited s path chain met) {target : String}
    (hmem : target ∈ chain) (hnew : target ∉ visited) :
    ∃ before name s' rest, lookup schemas target = .ok (name, s') ∧
      Meets schemas before s' rest chain met := by
  induction h with
  | here => exact absurd hmem hnew
  | @target visited chain target' name met s path hnew' hlookup below ih =>
    by_cases heq : target = target'
    · subst heq
      exact ⟨_, name, s, path, hlookup, below⟩
    · exact ih hmem (by simp [heq, hnew])
  | child _ _ _ ih => exact ih hmem hnew

/-- A component schema leads to the references that are met below it. -/
theorem Meets.transGen_refers (h : Meets schemas visited s path chain met) {name other : String}
    (hs : ∀ other, Mentions (Reference.text "schemas" other) s → Refers schemas name other)
    (hmet : met = Reference.text "schemas" other) :
    Relation.TransGen (Refers schemas) name other := by
  induction h generalizing name with
  | here visited target =>
    subst hmet
    exact .single (hs other .reference)
  | target hnew hlookup _ ih =>
    obtain ⟨rfl, hget⟩ := (Reference.lookup_eq_ok_iff (by decide)).mp hlookup
    exact .head (hs _ .reference) (ih (fun _ hmention => ⟨_, hget, hmention⟩) hmet)
  | child _ hchild _ ih =>
    exact ih (fun _ hmention => hs _ (.inline (Children.holds_of_child?_eq_some hchild) hmention))
      hmet

/-- What is on the chain that it is met with leads back to itself. -/
theorem Meets.transGen_refers_self (h : Meets schemas [] s path chain met) (hmem : met ∈ chain)
    {name : String} (hmet : met = Reference.text "schemas" name) :
    Relation.TransGen (Refers schemas) name name := by
  obtain ⟨before, found, s', rest, hlookup, hmeets⟩ := h.from_target hmem (List.not_mem_nil)
  obtain ⟨htext, hget⟩ := (Reference.lookup_eq_ok_iff (by decide)).mp hlookup
  rw [hmet, Reference.text_inj] at htext
  subst htext
  exact hmeets.transGen_refers (fun _ hmention => ⟨s', hget, hmention⟩) hmet

/-! ## The law of inlining -/

/-- A schema is what another one becomes when its references are inlined. -/
structure InlinesTo (schemas : List (String × Schema)) (s result : Schema) : Prop where
  /-- The run from the empty set of references ends, with the set empty again. It
  never nests more expansions than there are component schemas. -/
  run : ∀ expansions, schemas.length ≤ expansions →
    (s.traverse (resolveReference schemas expansions)).run ∅ = some (result, ∅)
  /-- The references that are being expanded on one branch are different ones, and
  no more than there are component schemas. -/
  chain : ∀ path chain met, Meets schemas [] s path chain met →
    chain.Nodup ∧ chain.length ≤ schemas.length
  /-- A reference stands at a place exactly if it is met there and stays. -/
  left : ∀ path met, (∀ step ∈ path, step.isIntoTuple = false) →
    (result.at? path = some (.reference met) ↔
      ∃ chain, Meets schemas [] s path chain met ∧ Stays schemas chain met)
  /-- A reference to a component schema that there is only stays if the component
  schema leads back to itself. -/
  cycle : ∀ path name, (∀ step ∈ path, step.isIntoTuple = false) →
    result.at? path = some (.reference (Reference.text "schemas" name)) →
      (Table.get? schemas name).isSome → Relation.TransGen (Refers schemas) name name

/-- The law of inlining, for all component schemas, circular ones included. -/
theorem inlinesTo_inlined (schemas : List (String × Schema)) (s : Schema) :
    InlinesTo schemas s (s.inlined schemas) := by
  have hleft : ∀ path met, (∀ step ∈ path, step.isIntoTuple = false) →
      ((s.inlined schemas).at? path = some (.reference met) ↔
        ∃ chain, Meets schemas [] s path chain met ∧ Stays schemas chain met) := by
    intro path met hpath
    rw [inlined_eq_inlinedBelow]
    constructor
    · exact exists_meets_of_at?_inlinedBelow [] s hpath
    · rintro ⟨chain, hmeets, hstays⟩
      rw [at?_inlinedBelow_of_meets hmeets, inlinedBelow_of_stays hstays]
  refine ⟨fun expansions h => run_traverse_inlined h s, ?_, hleft, ?_⟩
  · intro path chain met hmeets
    have hlength := hmeets.length_add_expansionsLeft_le
    have hall : expansionsLeft schemas [] ≤ schemas.length := expansionsLeft_le []
    rw [List.length_nil] at hlength
    exact ⟨hmeets.nodup List.nodup_nil, by omega⟩
  · intro path name hpath hat hsome
    obtain ⟨chain, hmeets, hstays⟩ := (hleft path _ hpath).mp hat
    rcases hstays with hother | ⟨name', hname, hnone⟩ | hmem
    · exact absurd rfl (hother name)
    · -- There is a component schema, so this reason to stay is out.
      rw [Reference.text_inj] at hname
      subst hname
      rw [hnone] at hsome
      cases hsome
    · exact hmeets.transGen_refers_self hmem rfl

end ProviderSchema.OpenApi.Schema
