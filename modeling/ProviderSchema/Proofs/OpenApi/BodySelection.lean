import Mathlib.Order.Defs.Unbundled
import ProviderSchema.Proofs.OpenApi.RearrangedOperations
import ProviderSchema.Proofs.Text.ByteOrder

/-!
# Which body counts

Of the responses of an operation one counts, and of its media types one counts.
Both are the first ones in a fixed order of names (`Precedes`): a few names
come first, and all others follow in the order of their bytes.  `firstIn?`
finds the first name of a table in such an order (`firstIn?_eq_some_iff`), and
both choices are of this kind.

The two choices fall back differently.  A media type counts only if it has a
schema, so the choice among media types passes over those that have none.  A
status counts whatever its response holds.  `Selects` says what follows for the
schema of a body, and for the two ways of having none; what comes after the
chosen names in their orders never matters
(`responseSchema_eq_of_agreeThrough`).
-/

namespace ProviderSchema.OpenApi

/-! ## Orders of names -/

/-- The preferred names come first, in the order in which they are listed, and
then all others in byte order. -/
def Precedes (preferred : List String) (a b : String) : Prop :=
  preferred.idxOf a < preferred.idxOf b ∨
    preferred.idxOf a = preferred.idxOf b ∧ Text.bytes a < Text.bytes b

/-- Of the names of which `P` holds, this one comes first. -/
def First (preferred : List String) (P : String → Prop) (name : String) : Prop :=
  P name ∧ ∀ other, P other → other ≠ name → Precedes preferred name other

section Order

variable {preferred : List String}

instance : IsStrictTotalOrder String (Precedes preferred) where
  trichotomous a b hab hba := by
    unfold Precedes at hab hba
    rw [Text.bytes_lt_iff] at hab hba
    push Not at hab hba
    have hindex : preferred.idxOf a = preferred.idxOf b := le_antisymm hba.1 hab.1
    exact le_antisymm (hba.2 hindex.symm) (hab.2 hindex)
  irrefl a := by
    unfold Precedes
    rw [Text.bytes_lt_iff]
    simp
  trans a b c hab hbc := by
    unfold Precedes at hab hbc ⊢
    rw [Text.bytes_lt_iff] at hab hbc ⊢
    rcases hab with hab | ⟨hab, hlt⟩
    · rcases hbc with hbc | ⟨hbc, -⟩
      · exact .inl (hab.trans hbc)
      · exact .inl (hbc ▸ hab)
    · rcases hbc with hbc | ⟨hbc, hlt'⟩
      · exact .inl (hab ▸ hbc)
      · exact .inr ⟨hab.trans hbc, hlt.trans hlt'⟩

/-- There is only one first name. -/
theorem First.unique {P : String → Prop} {name other : String} (h : First preferred P name)
    (h' : First preferred P other) : name = other := by
  by_contra hne
  have hbefore := h.2 other h'.1 (Ne.symm hne)
  have hafter := h'.2 name h.1 hne
  exact (Std.Irrefl.irrefl name : ¬ Precedes preferred name name)
    (IsTrans.trans _ _ _ hbefore hafter)

theorem precedes_cons_self {name other : String} (h : other ≠ name) :
    Precedes (name :: preferred) name other := by
  left
  rw [List.idxOf_cons_self, List.idxOf_cons_ne _ (Ne.symm h)]
  exact Nat.succ_pos _

theorem precedes_cons_iff {name a b : String} (ha : a ≠ name) (hb : b ≠ name) :
    Precedes (name :: preferred) a b ↔ Precedes preferred a b := by
  unfold Precedes
  rw [List.idxOf_cons_ne _ (Ne.symm ha), List.idxOf_cons_ne _ (Ne.symm hb)]
  simp

end Order

/-! ## The first entry of a table -/

/-- A table has an entry of the name. -/
def Has {α : Type} (t : List (String × α)) (name : String) : Prop := (Table.get? t name).isSome

/-- The entry of the first name: the first of the preferred names that there
is, or else the least name. -/
def firstIn? {α : Type} : List String → List (String × α) → Option (String × α)
  | [], t => leastNamed? t
  | name :: preferred, t =>
    match Table.get? t name with
    | some a => some (name, a)
    | none => firstIn? preferred t

theorem firstIn?_eq_none_iff {α : Type} (preferred : List String) {t : List (String × α)} :
    firstIn? preferred t = none ↔ t = [] := by
  induction preferred with
  | nil => exact leastNamed?_eq_none_iff
  | cons name preferred ih =>
    rw [firstIn?]
    cases hget : Table.get? t name with
    | none => exact ih
    | some a =>
      refine iff_of_false (by simp) ?_
      intro hempty
      rw [hempty] at hget
      cases hget

theorem of_firstIn?_eq_some {α : Type} {preferred : List String} {t : List (String × α)}
    {name : String} {a : α} (h : firstIn? preferred t = some (name, a)) :
    Table.get? t name = some a ∧ First preferred (Has t) name := by
  induction preferred with
  | nil =>
    obtain ⟨hget, hle⟩ := of_leastNamed?_eq_some h
    refine ⟨hget, Option.isSome_of_eq_some hget, ?_⟩
    intro other hother hne
    obtain ⟨b, hb⟩ := Option.isSome_iff_exists.mp hother
    have hlt : name < other := lt_of_le_of_ne (hle _ (Table.mem_of_get?_eq_some hb)) (Ne.symm hne)
    right
    rw [Text.bytes_lt_iff]
    exact ⟨rfl, hlt⟩
  | cons first preferred ih =>
    rw [firstIn?] at h
    cases hfirst : Table.get? t first with
    | some b =>
      rw [hfirst] at h
      cases h
      refine ⟨hfirst, Option.isSome_of_eq_some hfirst, ?_⟩
      intro other _ hne
      exact precedes_cons_self hne
    | none =>
      rw [hfirst] at h
      obtain ⟨hget, hsome, hbefore⟩ := ih h
      -- The preferred name is not in the table, so it does not change the order there.
      have hne {other : String} (hother : Has t other) : other ≠ first := by
        intro heq
        rw [heq, Has, hfirst] at hother
        cases hother
      refine ⟨hget, hsome, ?_⟩
      intro other hother hdifferent
      rw [precedes_cons_iff (hne hsome) (hne hother)]
      exact hbefore other hother hdifferent

/-- The entry of the first name is found, and no other one. -/
theorem firstIn?_eq_some_iff {α : Type} {preferred : List String} {t : List (String × α)}
    {name : String} {a : α} :
    firstIn? preferred t = some (name, a) ↔
      Table.get? t name = some a ∧ First preferred (Has t) name := by
  refine ⟨of_firstIn?_eq_some, ?_⟩
  rintro ⟨hget, hfirst⟩
  cases hfound : firstIn? preferred t with
  | none =>
    rw [(firstIn?_eq_none_iff preferred).mp hfound] at hget
    cases hget
  | some entry =>
    obtain ⟨other, b⟩ := entry
    obtain ⟨hother, hfirst'⟩ := of_firstIn?_eq_some hfound
    have hname := hfirst.unique hfirst'
    subst hname
    rw [hget] at hother
    cases hother
    rfl

section FirstValue

variable {α : Type} {preferred : List String} {t : List (String × α)}

theorem map_firstIn?_eq_some_iff {a : α} :
    (firstIn? preferred t).map (·.2) = some a ↔
      ∃ name, First preferred (Has t) name ∧ Table.get? t name = some a := by
  rw [Option.map_eq_some_iff, Prod.exists]
  simp only [firstIn?_eq_some_iff]
  constructor
  · rintro ⟨name, _, ⟨hget, hfirst⟩, rfl⟩
    exact ⟨name, hfirst, hget⟩
  · rintro ⟨name, hfirst, hget⟩
    exact ⟨name, a, ⟨hget, hfirst⟩, rfl⟩

theorem map_firstIn?_eq_none_iff :
    (firstIn? preferred t).map (·.2) = none ↔ ∀ name, ¬ Has t name := by
  rw [Option.map_eq_none_iff, firstIn?_eq_none_iff]
  constructor
  · intro hempty name hname
    rw [hempty] at hname
    cases hname
  · intro hnone
    rw [List.eq_nil_iff_forall_not_mem]
    intro entry hentry
    apply hnone entry.1
    exact Table.isSome_get?_iff.mpr (List.mem_map_of_mem hentry)

end FirstValue

/-- The tables are the same but for entries that come after a name. -/
def AgreeThrough {α : Type} (preferred : List String) (name : String)
    (t t' : List (String × α)) : Prop :=
  ∀ other, ¬ Precedes preferred name other → Table.get? t' other = Table.get? t other

/-- What comes after the first name does not matter. -/
theorem First.of_agree {preferred : List String} {P P' : String → Prop} {name : String}
    (h : First preferred P name)
    (hagree : ∀ other, ¬ Precedes preferred name other → (P' other ↔ P other)) :
    First preferred P' name := by
  refine ⟨(hagree name (Std.Irrefl.irrefl name)).mpr h.1, ?_⟩
  intro other hother hne
  by_contra hafter
  exact hafter (h.2 other ((hagree other hafter).mp hother) hne)

/-! ## Statuses -/

/-- The statuses that come before all others. -/
def preferredStatuses : List String := ["200", "201"]

/-- A status of success that there is a response for. -/
def Succeeds (responses : List (String × OrReference Response)) (status : String) : Prop :=
  status.toList.head? = some '2' ∧ Has responses status

theorem get?_filter_succeeds (responses : List (String × OrReference Response)) (status : String) :
    Table.get? (responses.filter fun entry => entry.1.toList.head? = some '2') status =
      if status.toList.head? = some '2' then Table.get? responses status else none := by
  split
  · rename_i hstatus
    exact Table.get?_filter (by simpa using hstatus) responses
  · rename_i hstatus
    rw [← Option.not_isSome_iff_eq_none, Table.isSome_get?_iff]
    intro hmem
    obtain ⟨entry, hentry, rfl⟩ := List.mem_map.mp hmem
    exact hstatus (by simpa using (List.mem_filter.mp hentry).2)

theorem successResponse?_eq_firstIn? (responses : List (String × OrReference Response)) :
    successResponse? responses =
      (firstIn? preferredStatuses
        (responses.filter fun entry => entry.1.toList.head? = some '2')).map (·.2) := by
  unfold successResponse? preferredStatuses
  rw [firstIn?, get?_filter_succeeds, if_pos (by decide), firstIn?, get?_filter_succeeds,
    if_pos (by decide), firstIn?]
  cases Table.get? responses "200" with
  | some response => rfl
  | none =>
    cases Table.get? responses "201" with
    | some response => rfl
    | none => rfl

theorem has_filter_succeeds (responses : List (String × OrReference Response)) :
    Has (responses.filter fun entry => entry.1.toList.head? = some '2') = Succeeds responses := by
  funext status
  unfold Has Succeeds
  rw [get?_filter_succeeds]
  split <;> simp [Has, *]

/-- The response that counts is the one of the first status. -/
theorem successResponse?_eq_some_iff {responses : List (String × OrReference Response)}
    {response : OrReference Response} :
    successResponse? responses = some response ↔
      ∃ status, First preferredStatuses (Succeeds responses) status ∧
        Table.get? responses status = some response := by
  rw [successResponse?_eq_firstIn?, map_firstIn?_eq_some_iff, has_filter_succeeds]
  refine exists_congr fun status => and_congr_right fun hfirst => ?_
  rw [get?_filter_succeeds, if_pos hfirst.1.1]

theorem successResponse?_eq_none_iff {responses : List (String × OrReference Response)} :
    successResponse? responses = none ↔ ∀ status, ¬ Succeeds responses status := by
  rw [successResponse?_eq_firstIn?, map_firstIn?_eq_none_iff, has_filter_succeeds]

/-! ## Media types -/

/-- The media types that come before all others. -/
def preferredMediaTypes : List String := [jsonMediaType]

/-- A media type that has a schema. -/
def HasSchema (content : List (String × MediaType)) (name : String) : Prop :=
  ((Table.get? content name).bind (·.schema)).isSome

section Content

variable {content : List (String × MediaType)} (hdistinct : (content.map (·.1)).Nodup)

include hdistinct

theorem preferredSchema?_eq_firstIn? :
    preferredSchema? content =
      (firstIn? preferredMediaTypes (schemaEntries content)).map (·.2) := by
  unfold preferredSchema? preferredMediaTypes
  rw [firstIn?, get?_schemaEntries hdistinct, firstIn?]
  cases (Table.get? content jsonMediaType).bind (·.schema) with
  | some s => rfl
  | none => rfl

theorem has_schemaEntries : Has (schemaEntries content) = HasSchema content := by
  funext name
  unfold Has HasSchema
  rw [get?_schemaEntries hdistinct]

/-- The schema that counts is that of the first media type that has one. -/
theorem preferredSchema?_eq_some_iff {s : Schema} :
    preferredSchema? content = some s ↔
      ∃ name, First preferredMediaTypes (HasSchema content) name ∧
        (Table.get? content name).bind (·.schema) = some s := by
  rw [preferredSchema?_eq_firstIn? hdistinct, map_firstIn?_eq_some_iff,
    has_schemaEntries hdistinct]
  simp only [get?_schemaEntries hdistinct]

theorem preferredSchema?_eq_none_iff :
    preferredSchema? content = none ↔ ∀ name, ¬ HasSchema content name := by
  rw [preferredSchema?_eq_firstIn? hdistinct, map_firstIn?_eq_none_iff,
    has_schemaEntries hdistinct]

end Content

/-! ## Bodies -/

/-- What a thing that is not a reference is mapped to. -/
def OrReference.map {α β : Type} (f : α → β) : OrReference α → OrReference β
  | .reference target => .reference target
  | .inline a => .inline (f a)

/-- The schema of a body, or why it has none. -/
def bodySchema (missing : SchemaError) :
    Option (OrReference (List (String × MediaType))) → Except SchemaError Schema
  | none => .error missing
  | some (.reference target) => .error { fault := .unresolvedReference target }
  | some (.inline content) =>
    match preferredSchema? content with
    | some s => .ok s
    | none => .error missing

/-- The outcome of selecting a schema.  `Counts` tells which body counts and
`Absent` when there is none; `missing` is the error if there is no schema. -/
structure Selects (Counts : OrReference (List (String × MediaType)) → Prop) (Absent : Prop)
    (missing : SchemaError) (result : Except SchemaError Schema) : Prop where
  /-- The schema is that of the first media type that has one. -/
  found : ∀ s, result = .ok s ↔ ∃ content name, Counts (.inline content) ∧
    First preferredMediaTypes (HasSchema content) name ∧
    (Table.get? content name).bind (·.schema) = some s
  /-- There is no schema if there is no body, or the one that counts has none in
  any media type. -/
  notFound : (∃ e, result = .error e ∧ e.isNotFound = true) ↔
    Absent ∨ ∃ content, Counts (.inline content) ∧ ∀ name, ¬ HasSchema content name
  /-- A reference that is left is reported if it is the body that counts. -/
  unresolved : ∀ target, result = .error { fault := .unresolvedReference target } ↔
    Counts (.reference target)
  /-- Nothing else is reported. -/
  errors : ∀ e, result = .error e →
    e = missing ∨ ∃ target, e = { fault := .unresolvedReference target }

theorem selects_bodySchema {Counts : OrReference (List (String × MediaType)) → Prop}
    {Absent : Prop} {missing : SchemaError} (hmissing : missing.isNotFound = true)
    {body : Option (OrReference (List (String × MediaType)))}
    (hcounts : ∀ b, Counts b ↔ body = some b) (habsent : Absent ↔ body = none)
    (hdistinct : ∀ content, body = some (.inline content) → (content.map (·.1)).Nodup) :
    Selects Counts Absent missing (bodySchema missing body) := by
  have hunresolved (target : String) : missing ≠ { fault := .unresolvedReference target } := by
    intro heq
    rw [heq] at hmissing
    cases hmissing
  cases body with
  | none =>
    have hnone (b) : ¬ Counts b := by simp [hcounts]
    exact ⟨by simp [bodySchema, hnone],
      iff_of_true ⟨missing, rfl, hmissing⟩ (.inl (habsent.mpr rfl)),
      by simp [bodySchema, hnone, hunresolved], fun e he => .inl (Except.error.inj he).symm⟩
  | some body =>
    have hthere : ¬ Absent := by simp [habsent]
    cases body with
    | reference target =>
      refine ⟨by simp [bodySchema, hcounts], ?_, ?_, ?_⟩
      · simp [bodySchema, hcounts, hthere, SchemaError.isNotFound]
      · intro other
        rw [hcounts]
        simp [bodySchema]
      · intro e he
        exact .inr ⟨target, (Except.error.inj he).symm⟩
    | inline content =>
      have hcontent (other : List (String × MediaType)) :
          Counts (.inline other) ↔ content = other := by
        rw [hcounts]
        simp
      have hreference (target : String) : ¬ Counts (.reference target) := by
        rw [hcounts]
        simp
      have hnone := preferredSchema?_eq_none_iff (hdistinct content rfl)
      have hsome := fun s => preferredSchema?_eq_some_iff (s := s) (hdistinct content rfl)
      rw [bodySchema]
      cases hschema : preferredSchema? content with
      | none =>
        rw [hschema] at hnone hsome
        refine ⟨?_, ?_, ?_, fun e he => .inl (Except.error.inj he).symm⟩
        · intro s
          simpa [hcontent] using hsome s
        · exact iff_of_true ⟨missing, rfl, hmissing⟩
            (.inr ⟨content, (hcontent content).mpr rfl, hnone.mp rfl⟩)
        · simp [hreference, hunresolved]
      | some s =>
        rw [hschema] at hnone hsome
        refine ⟨?_, ?_, ?_, fun e he => by cases he⟩
        · intro s'
          simpa [hcontent] using hsome s'
        · simpa [hcontent, hthere] using hnone
        · simp [hreference]

namespace ExploredOperation

/-- The media types of every body of an operation have distinct names. -/
structure DistinctMediaTypes (o : ExploredOperation) : Prop where
  response : ∀ status response, Table.get? o.operation.responses status = some (.inline response) →
    (response.content.map (·.1)).Nodup
  request : ∀ body, o.operation.requestBody = some (.inline body) →
    (body.content.map (·.1)).Nodup

/-- The body of the response of the first status counts. -/
def ResponseCounts (o : ExploredOperation) (body : OrReference (List (String × MediaType))) :
    Prop :=
  ∃ status, First preferredStatuses (Succeeds o.operation.responses) status ∧
    (Table.get? o.operation.responses status).map (OrReference.map Response.content) = some body

/-- The body of the request counts. -/
def RequestCounts (o : ExploredOperation) (body : OrReference (List (String × MediaType))) :
    Prop :=
  o.operation.requestBody.map (OrReference.map RequestBody.content) = some body

variable {o o' : ExploredOperation}

theorem responseSchema_eq_bodySchema (o : ExploredOperation) :
    o.responseSchema = bodySchema (o.notFound "success response body")
      ((successResponse? o.operation.responses).map (OrReference.map Response.content)) := by
  unfold responseSchema
  cases successResponse? o.operation.responses with
  | none => rfl
  | some response => cases response <;> rfl

theorem requestSchema_eq_bodySchema (o : ExploredOperation) :
    o.requestSchema = bodySchema (o.notFound "request body")
      (o.operation.requestBody.map (OrReference.map RequestBody.content)) := by
  unfold requestSchema
  cases o.operation.requestBody with
  | none => rfl
  | some body => cases body <;> rfl

theorem responseCounts_iff {body : OrReference (List (String × MediaType))} :
    o.ResponseCounts body ↔
      (successResponse? o.operation.responses).map (OrReference.map Response.content) =
        some body := by
  unfold ResponseCounts
  simp only [Option.map_eq_some_iff, successResponse?_eq_some_iff]
  constructor
  · rintro ⟨status, hfirst, response, hget, hbody⟩
    exact ⟨response, ⟨status, hfirst, hget⟩, hbody⟩
  · rintro ⟨response, ⟨status, hfirst, hget⟩, hbody⟩
    exact ⟨status, hfirst, response, hget, hbody⟩

theorem selects_responseSchema (h : o.DistinctMediaTypes) :
    Selects o.ResponseCounts (∀ status, ¬ Succeeds o.operation.responses status)
      (o.notFound "success response body") o.responseSchema := by
  rw [responseSchema_eq_bodySchema]
  apply selects_bodySchema rfl
  · intro body
    exact responseCounts_iff
  · rw [Option.map_eq_none_iff, successResponse?_eq_none_iff]
  · intro content hcontent
    rw [Option.map_eq_some_iff] at hcontent
    obtain ⟨response, hresponse, hinline⟩ := hcontent
    obtain ⟨status, -, hget⟩ := successResponse?_eq_some_iff.mp hresponse
    cases response with
    | reference target => cases hinline
    | inline response =>
      cases hinline
      exact h.response status response hget

theorem selects_requestSchema (h : o.DistinctMediaTypes) :
    Selects o.RequestCounts (o.operation.requestBody = none) (o.notFound "request body")
      o.requestSchema := by
  rw [requestSchema_eq_bodySchema]
  apply selects_bodySchema rfl
  · intro body
    exact Iff.rfl
  · rw [Option.map_eq_none_iff]
  · intro content hcontent
    rw [Option.map_eq_some_iff] at hcontent
    obtain ⟨body, hbody, hinline⟩ := hcontent
    cases body with
    | reference target => cases hinline
    | inline body =>
      cases hinline
      exact h.request body hbody

/-- Statuses that come after the first one do not matter, nor do those that are
none of success. -/
theorem responseSchema_eq_of_agreeThrough (hpath : o'.path = o.path)
    (hmethod : o'.method = o.method) {status : String}
    (hfirst : First preferredStatuses (Succeeds o.operation.responses) status)
    (hagree : ∀ other, other.toList.head? = some '2' → ¬ Precedes preferredStatuses status other →
      Table.get? o'.operation.responses other = Table.get? o.operation.responses other) :
    o'.responseSchema = o.responseSchema := by
  have hfirst' : First preferredStatuses (Succeeds o'.operation.responses) status := by
    apply hfirst.of_agree
    intro other hother
    unfold Succeeds Has
    refine and_congr_right fun hsuccess => ?_
    rw [hagree other hsuccess hother]
  obtain ⟨response, hresponse⟩ := Option.isSome_iff_exists.mp hfirst.1.2
  have hchosen := successResponse?_eq_some_iff.mpr ⟨status, hfirst, hresponse⟩
  have hsame := hagree status hfirst.1.1 (Std.Irrefl.irrefl status)
  rw [hresponse] at hsame
  have hchosen' := successResponse?_eq_some_iff.mpr ⟨status, hfirst', hsame⟩
  unfold responseSchema notFound
  rw [hchosen, hchosen', hpath, hmethod]

end ExploredOperation

/-- Media types that come after the first one that has a schema do not matter. -/
theorem Selects.eq_of_agreeThrough {Counts Counts' : OrReference (List (String × MediaType)) → Prop}
    {Absent Absent' : Prop} {missing missing' : SchemaError}
    {result result' : Except SchemaError Schema}
    (h : Selects Counts Absent missing result) (h' : Selects Counts' Absent' missing' result')
    {content content' : List (String × MediaType)} (hcounts : Counts (.inline content))
    (hcounts' : Counts' (.inline content')) {name : String}
    (hfirst : First preferredMediaTypes (HasSchema content) name)
    (hagree : AgreeThrough preferredMediaTypes name content content') : result' = result := by
  obtain ⟨s, hs⟩ := Option.isSome_iff_exists.mp hfirst.1
  have hfirst' : First preferredMediaTypes (HasSchema content') name := by
    apply hfirst.of_agree
    intro other hother
    unfold HasSchema
    rw [hagree other hother]
  have hs' : (Table.get? content' name).bind (·.schema) = some s := by
    rw [hagree name (Std.Irrefl.irrefl name), hs]
  rw [(h.found s).mpr ⟨content, name, hcounts, hfirst, hs⟩,
    (h'.found s).mpr ⟨content', name, hcounts', hfirst', hs'⟩]

/-- How the schemas of the bodies of an operation are selected. -/
structure SelectsFirst (o : ExploredOperation) : Prop where
  /-- Statuses are totally ordered. -/
  statusOrder : IsStrictTotalOrder String (Precedes preferredStatuses)
  /-- Media types are totally ordered. -/
  mediaTypeOrder : IsStrictTotalOrder String (Precedes preferredMediaTypes)
  /-- The response of the first status counts. -/
  response : Selects o.ResponseCounts (∀ status, ¬ Succeeds o.operation.responses status)
    (o.notFound "success response body") o.responseSchema
  /-- Of the request there is one body. -/
  request : Selects o.RequestCounts (o.operation.requestBody = none) (o.notFound "request body")
    o.requestSchema
  /-- Later statuses do not matter, nor do those that are none of success. -/
  laterStatuses : ∀ o' : ExploredOperation, o'.path = o.path → o'.method = o.method →
    ∀ status, First preferredStatuses (Succeeds o.operation.responses) status →
    (∀ other, other.toList.head? = some '2' → ¬ Precedes preferredStatuses status other →
      Table.get? o'.operation.responses other = Table.get? o.operation.responses other) →
    o'.responseSchema = o.responseSchema
  /-- Later media types of the response that counts do not matter. -/
  laterResponseMediaTypes : ∀ o' : ExploredOperation, o'.DistinctMediaTypes →
    ∀ content content' name, o.ResponseCounts (.inline content) →
    o'.ResponseCounts (.inline content') →
    First preferredMediaTypes (HasSchema content) name →
    AgreeThrough preferredMediaTypes name content content' → o'.responseSchema = o.responseSchema
  /-- Later media types of the request do not matter. -/
  laterRequestMediaTypes : ∀ o' : ExploredOperation, o'.DistinctMediaTypes →
    ∀ content content' name, o.RequestCounts (.inline content) →
    o'.RequestCounts (.inline content') →
    First preferredMediaTypes (HasSchema content) name →
    AgreeThrough preferredMediaTypes name content content' → o'.requestSchema = o.requestSchema

/-- The schemas of a request and of a response are those of the first media
types that have one, in the body of the request and in the response of the
first status of success. -/
theorem selectsFirst_of_distinctMediaTypes {o : ExploredOperation} (h : o.DistinctMediaTypes) :
    SelectsFirst o where
  statusOrder := inferInstance
  mediaTypeOrder := inferInstance
  response := ExploredOperation.selects_responseSchema h
  request := ExploredOperation.selects_requestSchema h
  laterStatuses _ hpath hmethod _ hfirst hagree :=
    ExploredOperation.responseSchema_eq_of_agreeThrough hpath hmethod hfirst hagree
  laterResponseMediaTypes _ h' _ _ _ hcounts hcounts' hfirst hagree :=
    (ExploredOperation.selects_responseSchema h).eq_of_agreeThrough
      (ExploredOperation.selects_responseSchema h') hcounts hcounts' hfirst hagree
  laterRequestMediaTypes _ h' _ _ _ hcounts hcounts' hfirst hagree :=
    (ExploredOperation.selects_requestSchema h).eq_of_agreeThrough
      (ExploredOperation.selects_requestSchema h') hcounts hcounts' hfirst hagree

/-- Media types with a schema of a type each; the first has none. -/
def mediaTypesOfHouse : List (String × MediaType) :=
  [(jsonMediaType, {}), ("text/plain", { schema := some (.reference "Note") }),
    ("application/xml", { schema := some (.reference "House") })]

/-- An operation with a status that is a pattern, and that takes what it gives. -/
def exploredHouse : ExploredOperation where
  path := "/house"
  method := .put
  parameters := []
  operation := {
    requestBody := some (.inline { content := mediaTypesOfHouse })
    responses := [("default", .reference "Failure"), ("2XX", .reference "Any"),
      ("204", .inline {}), ("202", .inline { content := mediaTypesOfHouse })] }

/-- Of the statuses of the house `202` comes first, and of its media types that
of XML, since the one of JSON has no schema. -/
theorem selectsFirst_of_distinctMediaTypes_house :
    exploredHouse.DistinctMediaTypes ∧ SelectsFirst exploredHouse ∧
      exploredHouse.responseSchema = .ok (.reference "House") ∧
      exploredHouse.requestSchema = .ok (.reference "House") := by
  have h : exploredHouse.DistinctMediaTypes := by
    refine ⟨?_, ?_⟩
    · intro status response hget
      have hmem := Table.mem_of_get?_eq_some hget
      simp only [exploredHouse, List.mem_cons, Prod.mk.injEq, reduceCtorEq, and_false,
        false_or, OrReference.inline.injEq, List.not_mem_nil, or_false] at hmem
      obtain ⟨-, rfl⟩ | ⟨-, rfl⟩ := hmem
      · exact List.nodup_nil
      · decide
    · intro body hbody
      cases hbody
      decide
  exact ⟨h, selectsFirst_of_distinctMediaTypes h, rfl, rfl⟩

end ProviderSchema.OpenApi
