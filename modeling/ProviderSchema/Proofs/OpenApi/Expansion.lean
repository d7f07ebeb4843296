import ProviderSchema.Proofs.OpenApi.Dereference
import ProviderSchema.Proofs.OpenApi.ReferenceName
import ProviderSchema.Proofs.OpenApi.Step

/-!
# Inlining, one reference at a time

`Schema.expand` counts how many expansions may still be nested.  The count
never runs out: each expansion takes up a component schema that was not taken
up before, so `expansionsLeft` bounds how many there can be below it, and from
that bound on the count makes no difference (`expand_eq_expand`).

`inlinedBelow` is what becomes of a schema while some references are being
expanded.  Its equations `inlinedBelow_reference` and `inlinedBelow_inline`
mention no count, and `inductionOnInlining` is the induction that goes with
them: from the target of a reference to the reference, and from the schemas
that a schema holds to the schema.
-/

namespace ProviderSchema.OpenApi.Schema

variable {schemas : List (String × Schema)}

/-! ## The component schemas that are left -/

/-- The component schemas that references stand for. -/
def componentNames (visited : List String) : List String :=
  visited.filterMap fun target => (Reference.name "schemas" target).toOption

/-- How many component schemas are not being expanded. -/
def expansionsLeft (schemas : List (String × Schema)) (visited : List String) : Nat :=
  (schemas.filter fun e => e.1 ∉ componentNames visited).length

theorem expansionsLeft_le (visited : List String) :
    expansionsLeft schemas visited ≤ schemas.length :=
  List.length_filter_le _ _

/-- Expanding one more reference leaves fewer component schemas. -/
theorem expansionsLeft_lt {visited : List String} {target name : String} {s : Schema}
    (hlookup : lookup schemas target = .ok (name, s)) (hnew : target ∉ visited) :
    expansionsLeft schemas (target :: visited) < expansionsLeft schemas visited := by
  obtain ⟨htarget, hget⟩ := (Reference.lookup_eq_ok_iff (by decide)).mp hlookup
  have hname : Reference.name "schemas" target = .ok name :=
    (Reference.name_eq_ok_iff (by decide)).mpr htarget
  have hcons : componentNames (target :: visited) = name :: componentNames visited := by
    simp [componentNames, hname, Except.toOption]
  unfold expansionsLeft
  rw [hcons]
  refine unvisited_lt hget fun hmem => ?_
  obtain ⟨other, hother, hothername⟩ := List.mem_filterMap.mp hmem
  cases hcases : Reference.name "schemas" other with
  | error e =>
    rw [hcases] at hothername
    cases hothername
  | ok found =>
    rw [hcases] at hothername
    cases hothername
    exact hnew (Reference.eq_of_name_eq_ok (by decide) hname hcases ▸ hother)

theorem expand_of_expansionsLeft_eq_zero {visited : List String}
    (hleft : expansionsLeft schemas visited = 0) (n : Nat) (target : String) :
    expand schemas n visited target = .reference target := by
  cases n with
  | zero => rfl
  | succ n =>
    rw [expand]
    split
    · rfl
    · split
      · rfl
      · rename_i hnew _ name s hlookup
        have hlt := expansionsLeft_lt hlookup hnew
        omega

/-- Once there are as many expansions to spare as component schemas are left,
their number makes no difference. -/
theorem expand_eq_expand {visited : List String} {n m : Nat}
    (hn : expansionsLeft schemas visited ≤ n) (hm : expansionsLeft schemas visited ≤ m) :
    expand schemas n visited = expand schemas m visited := by
  funext target
  induction n generalizing m visited target with
  | zero =>
    have hleft : expansionsLeft schemas visited = 0 := by omega
    rw [expand_of_expansionsLeft_eq_zero hleft, expand_of_expansionsLeft_eq_zero hleft]
  | succ n ih =>
    cases m with
    | zero =>
      have hleft : expansionsLeft schemas visited = 0 := by omega
      rw [expand_of_expansionsLeft_eq_zero hleft, expand_of_expansionsLeft_eq_zero hleft]
    | succ m =>
      rw [expand, expand]
      split
      · rfl
      · split
        · rfl
        · rename_i hnew _ name s hlookup
          have hlt := expansionsLeft_lt hlookup hnew
          have hbelow : expand schemas n (target :: visited) =
              expand schemas m (target :: visited) := by
            funext other
            exact ih (by omega) (by omega) other
          rw [hbelow]

/-! ## Equations without a count -/

/-- A schema with its references inlined, while those in `visited` are being
expanded. -/
def inlinedBelow (schemas : List (String × Schema)) (visited : List String) (s : Schema) :
    Schema :=
  s.substitute (expand schemas schemas.length visited)

theorem inlined_eq_inlinedBelow (s : Schema) : s.inlined schemas = s.inlinedBelow schemas [] :=
  rfl

/-- A reference is replaced by its target, unless it has none or is being
expanded already. -/
theorem inlinedBelow_reference (visited : List String) (target : String) :
    inlinedBelow schemas visited (.reference target) =
      if target ∈ visited then .reference target
      else
        match lookup schemas target with
        | .error _ => .reference target
        | .ok (name, s) => (s.inlinedBelow schemas (target :: visited)).copiedFrom name := by
  have hcount : expand schemas schemas.length visited =
      expand schemas (schemas.length + 1) visited :=
    expand_eq_expand (expansionsLeft_le visited) (Nat.le_succ_of_le (expansionsLeft_le visited))
  rw [inlinedBelow, substitute_reference, hcount, expand]
  rfl

theorem inlinedBelow_inline (visited : List String) (keywords : Keywords)
    (c : Children Schema) :
    inlinedBelow schemas visited (.inline keywords c) =
      .inline keywords (substituteChildren (expand schemas schemas.length visited) c) :=
  substitute_inline _ keywords c

theorem inlinedBelow_of_mem {visited : List String} {target : String} (h : target ∈ visited) :
    inlinedBelow schemas visited (.reference target) = .reference target := by
  rw [inlinedBelow_reference, if_pos h]

theorem inlinedBelow_of_lookup_eq_error {target : String} {e : ReferenceError}
    (h : lookup schemas target = .error e) (visited : List String) :
    inlinedBelow schemas visited (.reference target) = .reference target := by
  rw [inlinedBelow_reference, h]
  exact ite_self _

theorem inlinedBelow_of_lookup_eq_ok {visited : List String} {target name : String} {s : Schema}
    (h : lookup schemas target = .ok (name, s)) (hnew : target ∉ visited) :
    inlinedBelow schemas visited (.reference target) =
      (s.inlinedBelow schemas (target :: visited)).copiedFrom name := by
  rw [inlinedBelow_reference, if_neg hnew, h]

/-- What passes from the target of a reference on to the reference, and from
the schemas that a schema holds on to the schema, holds of all schemas and all
references that are being expanded. -/
theorem inductionOnInlining (schemas : List (String × Schema))
    {motive : List String → Schema → Prop}
    (visited : ∀ visited target, target ∈ visited → motive visited (.reference target))
    (unknown : ∀ visited target e, lookup schemas target = .error e →
      motive visited (.reference target))
    (expanded : ∀ visited target name s, target ∉ visited →
      lookup schemas target = .ok (name, s) → motive (target :: visited) s →
        motive visited (.reference target))
    (inline : ∀ visited keywords c, (∀ s, c.Holds s → motive visited s) →
      motive visited (.inline keywords c))
    (names : List String) (s : Schema) : motive names s :=
  -- A target may be larger than the reference, but then there is less left to expand.
  match s with
  | .reference target =>
    if hmem : target ∈ names then visited names target hmem
    else
      match hlookup : lookup schemas target with
      | .error e => unknown names target e hlookup
      | .ok (name, s) =>
        have := expansionsLeft_lt hlookup hmem
        expanded names target name s hmem hlookup
          (inductionOnInlining schemas visited unknown expanded inline (target :: names) s)
  | .inline keywords c =>
    inline names keywords c fun s h =>
      have := h.sizeOf_lt
      inductionOnInlining schemas visited unknown expanded inline names s
termination_by (expansionsLeft schemas names, sizeOf s)

end ProviderSchema.OpenApi.Schema
