import Mathlib.Data.List.Perm.Subperm
import ProviderSchema.Proofs.OpenApi.Footprint

/-!
# References among the entries of a section

A parameter, a request body or a response may be a reference to an entry of the
components, and that entry may be a reference in turn.  `Passes` follows such
references from entry to entry inside one section.  A thing either leads to an
inline definition, past entries that are all different (`Passes.nodup`), or it
is unresolvable: a reference on the way is malformed or names no entry, or the
way leads in a circle (`exists_passes_inline_iff`).

Inlining follows one reference.  `followsOne_inlined` says what becomes of every
thing that may be a reference: it is replaced by the definition it leads to if
that is at most one entry away, and stays as it is otherwise.  So everything is
resolved that could be, in the sense of `ResolvedIfPossible`, exactly where no
entry that is referred to is a reference itself.
-/

namespace ProviderSchema.OpenApi

/-! ## Ways from entry to entry -/

namespace OrReference

variable {α : Type} {section_ : Section} {table : List (String × OrReference α)}

/-- A thing leads to another one past the entries of some names. -/
inductive Passes (section_ : Section) (table : List (String × OrReference α)) :
    List String → OrReference α → OrReference α → Prop where
  | here (node : OrReference α) : Passes section_ table [] node node
  | entry {name : String} {names : List String} {next last : OrReference α}
      (hget : Table.get? table name = some next) (rest : Passes section_ table names next last) :
      Passes section_ table (name :: names) (.reference (Reference.text section_.text name)) last

/-- A thing leads to no inline definition. -/
inductive Unresolvable (section_ : Section) (table : List (String × OrReference α))
    (node : OrReference α) : Prop where
  | malformed {names : List String} {target : String}
      (way : Passes section_ table names node (.reference target))
      (h : ∀ name, target ≠ Reference.text section_.text name)
  | missing {names : List String} {name : String}
      (way : Passes section_ table names node (.reference (Reference.text section_.text name)))
      (h : Table.get? table name = none)
  | circular {names : List String} {last : OrReference α}
      (way : Passes section_ table names node last) (h : ¬ names.Nodup)

theorem Passes.get?_isSome {names : List String} {node last : OrReference α}
    (h : Passes section_ table names node last) :
    ∀ name ∈ names, (Table.get? table name).isSome := by
  induction h with
  | here => simp
  | entry hget _ ih =>
    rw [List.forall_mem_cons]
    exact ⟨by simp [hget], ih⟩

/-- Every other way from a thing is the beginning of one to an inline
definition. -/
theorem Passes.prefix_of_inline {names names' : List String} {node last : OrReference α}
    {value : α} (h : Passes section_ table names node (.inline value))
    (h' : Passes section_ table names' node last) :
    ∃ rest, names = names' ++ rest ∧ Passes section_ table rest last (.inline value) := by
  induction h' generalizing names with
  | here => exact ⟨names, rfl, h⟩
  | @entry name names' next last hget _ ih =>
    generalize htarget : Reference.text section_.text name = target at h
    cases h with
    | @entry other names next' _ hget' rest =>
      rw [Reference.text_inj] at htarget
      subst htarget
      rw [hget] at hget'
      cases hget'
      obtain ⟨left, hleft, hlast⟩ := ih rest
      exact ⟨left, by rw [hleft, List.cons_append], hlast⟩

/-- A way past an entry has a way from that entry on. -/
theorem Passes.exists_of_mem {names : List String} {node last : OrReference α}
    (h : Passes section_ table names node last) {name : String} (hmem : name ∈ names) :
    ∃ rest, rest.length < names.length ∧
      Passes section_ table (name :: rest) (.reference (Reference.text section_.text name))
        last := by
  induction h with
  | here => cases hmem
  | @entry first names next last hget rest ih =>
    rcases List.mem_cons.mp hmem with rfl | hmem
    · exact ⟨names, by simp, .entry hget rest⟩
    · obtain ⟨left, hlength, hleft⟩ := ih hmem
      exact ⟨left, by rw [List.length_cons]; omega, hleft⟩

/-- A way to an inline definition passes no entry twice: from the second time on
it would go on as from the first. -/
theorem Passes.nodup {names : List String} {node : OrReference α} {value : α}
    (h : Passes section_ table names node (.inline value)) : names.Nodup := by
  generalize hlast : OrReference.inline value = last at h
  induction h with
  | here => exact List.nodup_nil
  | @entry name names next last hget rest ih =>
    subst hlast
    refine List.nodup_cons.mpr ⟨fun hmem => ?_, ih rfl⟩
    obtain ⟨left, hlength, hagain⟩ := rest.exists_of_mem hmem
    obtain ⟨more, hmore, -⟩ := hagain.prefix_of_inline (.entry hget rest)
    have heq := congrArg List.length hmore
    rw [List.length_append, List.length_cons, List.length_cons] at heq
    omega

/-- A thing leads to one inline definition at most, past the same entries. -/
theorem Passes.inline_unique {names names' : List String} {node : OrReference α}
    {value value' : α} (h : Passes section_ table names node (.inline value))
    (h' : Passes section_ table names' node (.inline value')) :
    names = names' ∧ value = value' := by
  obtain ⟨rest, hnames, hrest⟩ := h.prefix_of_inline h'
  cases hrest
  exact ⟨by simpa using hnames, rfl⟩

/-- A way can be followed for any number of entries, if it does not end. -/
theorem exists_passes_of_length (section_ : Section) (table : List (String × OrReference α))
    (node : OrReference α) (n : Nat) :
    (∃ names value, Passes section_ table names node (.inline value)) ∨
      Unresolvable section_ table node ∨
        ∃ names last, Passes section_ table names node last ∧ names.length = n := by
  induction n generalizing node with
  | zero => exact .inr (.inr ⟨[], node, .here node, rfl⟩)
  | succ n ih =>
    cases node with
    | inline value => exact .inl ⟨[], value, .here _⟩
    | reference target =>
      by_cases hwritten : ∃ name, target = Reference.text section_.text name
      · obtain ⟨name, rfl⟩ := hwritten
        cases hget : Table.get? table name with
        | none => exact .inr (.inl (.missing (.here _) hget))
        | some next =>
          rcases ih next with ⟨names, value, hway⟩ | hbad | ⟨names, last, hway, hlength⟩
          · exact .inl ⟨name :: names, value, .entry hget hway⟩
          · refine .inr (.inl ?_)
            cases hbad with
            | malformed way h => exact .malformed (.entry hget way) h
            | missing way h => exact .missing (.entry hget way) h
            | circular way h =>
              exact .circular (.entry hget way) fun hnodup => h (List.nodup_cons.mp hnodup).2
          · exact .inr (.inr ⟨name :: names, last, .entry hget hway, by
              rw [List.length_cons, hlength]⟩)
      · exact .inr (.inl (.malformed (.here _) (not_exists.mp hwritten)))

/-- A thing leads to an inline definition unless it is unresolvable. -/
theorem exists_passes_inline_iff {node : OrReference α} :
    (∃ names value, Passes section_ table names node (.inline value)) ↔
      ¬ Unresolvable section_ table node := by
  constructor
  · rintro ⟨names, value, hway⟩ hbad
    cases hbad with
    | malformed way h =>
      obtain ⟨rest, -, hrest⟩ := hway.prefix_of_inline way
      cases hrest with
      | @entry name => exact h name rfl
    | @missing _ name way h =>
      obtain ⟨rest, -, hrest⟩ := hway.prefix_of_inline way
      generalize htarget : Reference.text section_.text name = target at hrest
      cases hrest with
      | entry hget =>
        rw [Reference.text_inj] at htarget
        subst htarget
        rw [h] at hget
        cases hget
    | circular way h =>
      obtain ⟨rest, hnames, -⟩ := hway.prefix_of_inline way
      have hnodup := hway.nodup
      rw [hnames] at hnodup
      exact h (List.nodup_append.mp hnodup).1
  · intro hgood
    rcases exists_passes_of_length section_ table node (table.length + 1) with
      hway | hbad | ⟨names, last, hway, hlength⟩
    · exact hway
    · exact absurd hbad hgood
    · -- A way past more entries than there are passes one of them twice.
      refine absurd (.circular hway fun hnodup => ?_) hgood
      have hsub : names ⊆ table.map Prod.fst := by
        intro name hmem
        obtain ⟨value, hvalue⟩ := Option.isSome_iff_exists.mp (hway.get?_isSome name hmem)
        exact List.mem_map.mpr ⟨(name, value), Table.mem_of_get?_eq_some hvalue, rfl⟩
      have hle := (hnodup.subperm hsub).length_le
      rw [List.length_map] at hle
      omega

/-! ## What inlining makes of a reference -/

/-- A thing is resolved wherever it can be: it is replaced by the definition that
it leads to, and stays only if it is unresolvable. -/
structure ResolvedIfPossible (section_ : Section) (table : List (String × OrReference α))
    (inside : α → α) (node result : OrReference α) : Prop where
  replaced : ∀ names value, Passes section_ table names node (.inline value) →
    result = .inline (inside value)
  left : ∀ target, result = .reference target → Unresolvable section_ table node

/-- One reference is followed. -/
structure FollowsOne (section_ : Section) (table : List (String × OrReference α))
    (inside : α → α) (node result : OrReference α) : Prop where
  /-- What is at most one entry away is put in the place of a reference to it. -/
  near : ∀ names value, Passes section_ table names node (.inline value) → names.length ≤ 1 →
    result = .inline (inside value)
  /-- What is further away is not. -/
  far : ∀ names value, Passes section_ table names node (.inline value) → 1 < names.length →
    result = node
  unresolvable : Unresolvable section_ table node → result = node
  /-- So a thing is resolved wherever it can be, exactly if nothing is further away. -/
  resolved_iff : ResolvedIfPossible section_ table inside node result ↔
    ∀ names value, Passes section_ table names node (.inline value) → names.length ≤ 1

theorem inlined_of_get?_eq_inline {name : String} {value : α}
    (hget : Table.get? table name = some (.inline value)) (inside : α → α) :
    OrReference.inlined section_.text table inside
      (.reference (Reference.text section_.text name)) = .inline (inside value) := by
  have hlookup : Reference.lookup section_.text table (Reference.text section_.text name) =
      .ok (name, .inline value) :=
    (Reference.lookup_eq_ok_iff section_.slash_notMem_text).mpr ⟨rfl, hget⟩
  unfold inlined Reference.lookupInline
  dsimp only
  rw [hlookup]

/-- A reference stays if it does not name an inline entry. -/
theorem inlined_of_forall_get?_ne {target : String}
    (h : ∀ name value, target = Reference.text section_.text name →
      Table.get? table name ≠ some (.inline value)) (inside : α → α) :
    OrReference.inlined section_.text table inside (.reference target) = .reference target := by
  unfold inlined Reference.lookupInline
  dsimp only
  cases hlookup : Reference.lookup section_.text table target with
  | error e => rfl
  | ok found =>
    obtain ⟨name, entry⟩ := found
    obtain ⟨htarget, hget⟩ := (Reference.lookup_eq_ok_iff section_.slash_notMem_text).mp hlookup
    cases entry with
    | reference other => rfl
    | inline value => exact absurd hget (h name value htarget)

/-- A thing that is inlined leads to what it is replaced with past one entry at
most. -/
theorem exists_passes_of_inlined (section_ : Section) (table : List (String × OrReference α))
    (inside : α → α) (node : OrReference α) :
    (∃ names value, Passes section_ table names node (.inline value) ∧ names.length ≤ 1 ∧
      node.inlined section_.text table inside = .inline (inside value)) ∨
      (node.inlined section_.text table inside = node ∧
        (∃ target, node = .reference target) ∧
          ∀ names value, Passes section_ table names node (.inline value) → 1 < names.length) := by
  cases node with
  | inline value => exact .inl ⟨[], value, .here _, by simp, rfl⟩
  | reference target =>
    by_cases hinline : ∃ name value, target = Reference.text section_.text name ∧
        Table.get? table name = some (.inline value)
    · obtain ⟨name, value, rfl, hget⟩ := hinline
      exact .inl ⟨[name], value, .entry hget (.here _), by simp,
        inlined_of_get?_eq_inline hget inside⟩
    · refine .inr ⟨inlined_of_forall_get?_ne (fun name value htarget hget =>
        hinline ⟨name, value, htarget, hget⟩) inside, ⟨target, rfl⟩, ?_⟩
      rintro names value hway
      cases hway with
      | @entry name names next _ hget rest =>
        cases rest with
        | here => exact absurd ⟨name, value, rfl, hget⟩ hinline
        | entry => simp

theorem followsOne_inlined (section_ : Section) (table : List (String × OrReference α))
    (inside : α → α) (node : OrReference α) :
    FollowsOne section_ table inside node (node.inlined section_.text table inside) := by
  rcases exists_passes_of_inlined section_ table inside node with
    ⟨names, value, hway, hlength, hresult⟩ | ⟨hresult, ⟨target, rfl⟩, hfar⟩
  · -- It is replaced.
    have hunique {names' value'} (hway' : Passes section_ table names' node (.inline value')) :
        names'.length ≤ 1 ∧ value' = value := by
      obtain ⟨rfl, rfl⟩ := hway.inline_unique hway'
      exact ⟨hlength, rfl⟩
    have hreplaced {names' value'} (hway' : Passes section_ table names' node (.inline value')) :
        node.inlined section_.text table inside = .inline (inside value') := by
      rw [(hunique hway').2, hresult]
    refine ⟨?_, ?_, ?_, ?_⟩
    · intro names' value' hway' _
      exact hreplaced hway'
    · intro names' value' hway' hlong
      have hshort := (hunique hway').1
      omega
    · intro hbad
      exact absurd hbad (exists_passes_inline_iff.mp ⟨names, value, hway⟩)
    · refine ⟨fun _ names' value' hway' => (hunique hway').1, fun _ => ⟨?_, ?_⟩⟩
      · intro names' value' hway'
        exact hreplaced hway'
      · intro target htarget
        rw [hresult] at htarget
        cases htarget
  · -- It stays.
    refine ⟨?_, ?_, ?_, ?_⟩
    · intro names value hway hshort
      have hlong := hfar names value hway
      omega
    · intro _ _ _ _
      exact hresult
    · intro _
      exact hresult
    · constructor
      · intro hresolved names value hway
        have hreplaced := hresolved.replaced names value hway
        rw [hresult] at hreplaced
        cases hreplaced
      · intro hshort
        refine ⟨?_, ?_⟩
        · intro names value hway
          have hlong := hfar names value hway
          have hle := hshort names value hway
          omega
        · intro _ _
          by_contra hgood
          obtain ⟨names, value, hway⟩ := exists_passes_inline_iff.mpr hgood
          have hlong := hfar names value hway
          have hle := hshort names value hway
          omega

end OrReference

/-! ## Everything in a description that may be a reference -/

/-- What is said about a thing that may be a reference, and what it becomes: the
section its references name, the entries of that section, and what becomes of the
inside of a definition are given. -/
abbrev UseRelation : Type 1 :=
  {α : Type} → Section → List (String × OrReference α) → (α → α) →
    OrReference α → OrReference α → Prop

namespace Components

variable (c : Components) (R : UseRelation)

/-- A parameter with the references in its schema inlined. -/
def insideParameter (p : Parameter) : Parameter :=
  { p with schema := p.schema.map (Schema.inlined c.schemas) }

/-- The body of a request with the references in its schemas inlined. -/
def insideBody (b : RequestBody) : RequestBody :=
  { b with content := mapContent (Schema.inlined c.schemas) b.content }

/-- A response with the references in its schemas inlined. -/
def insideResponse (r : Response) : Response :=
  { r with content := mapContent (Schema.inlined c.schemas) r.content }

/-- Of the uses in an operation and of what they become, a relation holds. -/
structure EachUseInOperation (o o' : Operation) : Prop where
  parameters : List.Forall₂ (R .parameters c.parameters c.insideParameter) o.parameters
    o'.parameters
  requestBody : Option.Rel (R .requestBodies c.requestBodies c.insideBody) o.requestBody
    o'.requestBody
  responses : List.Forall₂ (fun r r' => r.1 = r'.1 ∧
    R .responses c.responses c.insideResponse r.2 r'.2) o.responses o'.responses

/-- Of the uses in a path and of what they become, a relation holds. -/
structure EachUseInPathItem (item item' : PathItem) : Prop where
  parameters : List.Forall₂ (R .parameters c.parameters c.insideParameter) item.parameters
    item'.parameters
  operations : ∀ m, Option.Rel (c.EachUseInOperation R) (item.operation? m) (item'.operation? m)

end Components

/-- Of all uses of parameters, request bodies and responses in the paths of a
description and of what they become, a relation holds. -/
def Description.EachUse (d : Description) (R : UseRelation) (d' : Description) : Prop :=
  List.Forall₂ (fun entry entry' => entry.1 = entry'.1 ∧
    (d.components.getD {}).EachUseInPathItem R entry.2 entry'.2) d.paths d'.paths

theorem Components.eachUse_inlinedOperation (c : Components) (o : Operation) :
    c.EachUseInOperation OrReference.FollowsOne o (c.inlinedOperation o) := by
  refine ⟨?_, ?_, ?_⟩
  · show List.Forall₂ _ o.parameters (o.parameters.map c.inlinedParameter)
    rw [List.forall₂_map_right_iff, List.forall₂_same]
    exact fun p _ => OrReference.followsOne_inlined .parameters c.parameters c.insideParameter p
  · show Option.Rel _ o.requestBody (o.requestBody.map c.inlinedBody)
    cases o.requestBody with
    | none => exact .none
    | some b =>
      exact .some (OrReference.followsOne_inlined .requestBodies c.requestBodies c.insideBody b)
  · show List.Forall₂ _ o.responses (o.responses.map fun r => (r.1, c.inlinedResponse r.2))
    rw [List.forall₂_map_right_iff, List.forall₂_same]
    exact fun r _ => ⟨rfl,
      OrReference.followsOne_inlined .responses c.responses c.insideResponse r.2⟩

theorem Components.eachUse_inlinedPathItem (c : Components) (item : PathItem) :
    c.EachUseInPathItem OrReference.FollowsOne item (c.inlinedPathItem item) := by
  refine ⟨?_, ?_⟩
  · show List.Forall₂ _ item.parameters (item.parameters.map c.inlinedParameter)
    rw [List.forall₂_map_right_iff, List.forall₂_same]
    exact fun p _ => OrReference.followsOne_inlined .parameters c.parameters c.insideParameter p
  · intro m
    rw [operation?_inlinedPathItem]
    cases item.operation? m with
    | none => exact .none
    | some o => exact .some (c.eachUse_inlinedOperation o)

/-- Inlining a description follows one reference wherever a parameter, a request
body or a response is used. -/
theorem Description.eachUse_followsOne_inlined (d : Description) :
    d.EachUse OrReference.FollowsOne d.inlined := by
  unfold EachUse
  show List.Forall₂ _ d.paths
    (d.paths.map fun entry => (entry.1, (d.components.getD {}).inlinedPathItem entry.2))
  rw [List.forall₂_map_right_iff, List.forall₂_same]
  exact fun entry _ => ⟨rfl, (d.components.getD {}).eachUse_inlinedPathItem entry.2⟩

/-! ## A parameter that is two entries away -/

/-- A parameter `page` that is an alias of `offset`, and an operation with it. -/
def pagedDescription : Description where
  openapi := "3.0.0"
  info := { title := "Pages", version := "1" }
  paths := [("/pages",
    { get := some { parameters := [.reference "#/components/parameters/page"] } })]
  components := some {
    parameters := [("page", .reference "#/components/parameters/offset"),
      ("offset", .inline { name := "offset", place := .query })] }

/-- The alias leads to a parameter, but stays. -/
theorem not_eachUse_resolvedIfPossible_inlined :
    ¬ pagedDescription.EachUse OrReference.ResolvedIfPossible pagedDescription.inlined := by
  intro h
  obtain ⟨⟨-, hitem⟩, -⟩ := List.forall₂_cons.mp h
  have hget := hitem.operations .get
  cases hget with
  | some hoperation =>
    obtain ⟨hpage, -⟩ := List.forall₂_cons.mp hoperation.parameters
    have hway : OrReference.Passes .parameters (pagedDescription.components.getD {}).parameters
        ["page", "offset"] (.reference "#/components/parameters/page")
        (.inline { name := "offset", place := .query }) := .entry rfl (.entry rfl (.here _))
    have hreplaced := hpage.replaced _ _ hway
    cases hreplaced

end ProviderSchema.OpenApi
