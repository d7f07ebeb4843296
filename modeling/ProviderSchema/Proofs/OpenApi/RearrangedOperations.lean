import Mathlib.Data.String.Basic
import ProviderSchema.OpenApi.Exploration
import ProviderSchema.Proofs.OpenApi.Rearranged

/-!
# Exploring descriptions in another order

In a description that is rearranged the same operations are found, with the
same parameters in the same order and with bodies that are alike.  Which
response counts and which media type is a matter of names, and the least name
is the same in every order (`leastNamed?_eq_some_iff`).
-/

namespace ProviderSchema.OpenApi

/-! ## The least name -/

theorem leastNamed?_eq_none_iff {α : Type} {t : List (String × α)} :
    leastNamed? t = none ↔ t = [] := by
  cases t with
  | nil => exact iff_of_true rfl rfl
  | cons entry rest =>
    refine iff_of_false ?_ (List.cons_ne_nil _ _)
    rw [leastNamed?]
    split
    · simp
    · split <;> simp

theorem of_leastNamed?_eq_some {α : Type} {t : List (String × α)} {least : String × α}
    (h : leastNamed? t = some least) :
    Table.get? t least.1 = some least.2 ∧ ∀ entry ∈ t, least.1 ≤ entry.1 := by
  induction t generalizing least with
  | nil => cases h
  | cons entry rest ih =>
    rw [leastNamed?] at h
    split at h
    · rename_i hrest
      cases h
      rw [leastNamed?_eq_none_iff.mp hrest]
      simp [Table.get?]
    · rename_i other hother
      obtain ⟨hget, hle⟩ := ih hother
      split at h
      · rename_i hlt
        cases h
        refine ⟨?_, List.forall_mem_cons.mpr ⟨hlt.le, hle⟩⟩
        unfold Table.get? at hget ⊢
        rw [List.find?_cons_of_neg (by simpa using hlt.ne'), hget]
      · rename_i hlt
        cases h
        refine ⟨by simp [Table.get?], List.forall_mem_cons.mpr ⟨le_rfl, fun e he => ?_⟩⟩
        exact (not_lt.mp hlt).trans (hle e he)

/-- The entry with the least name is the value of that name. -/
theorem leastNamed?_eq_some_iff {α : Type} {t : List (String × α)} {least : String × α} :
    leastNamed? t = some least ↔
      Table.get? t least.1 = some least.2 ∧ ∀ entry ∈ t, least.1 ≤ entry.1 := by
  refine ⟨of_leastNamed?_eq_some, ?_⟩
  rintro ⟨hget, hle⟩
  cases hleast : leastNamed? t with
  | none =>
    rw [leastNamed?_eq_none_iff.mp hleast] at hget
    cases hget
  | some other =>
    obtain ⟨hget', hle'⟩ := of_leastNamed?_eq_some hleast
    have hname : other.1 = least.1 :=
      le_antisymm (hle' _ (Table.mem_of_get?_eq_some hget))
        (hle _ (Table.mem_of_get?_eq_some hget'))
    rw [hname, hget, Option.some_inj] at hget'
    rw [Prod.ext hname hget'.symm]

/-- The values of the least names are related if all values are that have the
same name. -/
theorem rel_leastNamed? {α β : Type} {R : α → β → Prop} {t : List (String × α)}
    {t' : List (String × β)}
    (h : ∀ name, Option.Rel R (Table.get? t name) (Table.get? t' name)) :
    Option.Rel R ((leastNamed? t).map (·.2)) ((leastNamed? t').map (·.2)) := by
  have hnames (name : String) : name ∈ t.map (·.1) ↔ name ∈ t'.map (·.1) := by
    rw [← Table.isSome_get?_iff, ← Table.isSome_get?_iff]
    generalize Table.get? t name = a, Table.get? t' name = b, h name = hrel
    cases hrel <;> simp
  cases hleast : leastNamed? t with
  | none =>
    have hempty : t' = [] := by
      rw [leastNamed?_eq_none_iff.mp hleast] at hnames
      simpa [List.eq_nil_iff_forall_not_mem] using fun name => (hnames name).not.mp (by simp)
    rw [hempty]
    exact .none
  | some least =>
    -- The names are the same in both tables, so the least one is.
    obtain ⟨hget, hle⟩ := of_leastNamed?_eq_some hleast
    have hrel := h least.1
    rw [hget] at hrel
    generalize hget' : Table.get? t' least.1 = b at hrel
    cases hrel with
    | @some _ b hab =>
      have hleast' : leastNamed? t' = some (least.1, b) := by
        refine leastNamed?_eq_some_iff.mpr ⟨hget', fun entry hentry => ?_⟩
        obtain ⟨entry', hentry', hname⟩ :=
          List.mem_map.mp ((hnames entry.1).mpr (List.mem_map_of_mem hentry))
        rw [← hname]
        exact hle entry' hentry'
      rw [hleast']
      exact .some hab

/-! ## Bodies -/

/-- The media types that have a schema are found with it. -/
theorem get?_schemaEntries {content : List (String × MediaType)}
    (hdistinct : (content.map (·.1)).Nodup) (name : String) :
    Table.get? (schemaEntries content) name = (Table.get? content name).bind (·.schema) := by
  induction content with
  | nil => rfl
  | cons entry rest ih =>
    obtain ⟨key, media⟩ := entry
    rw [List.map_cons, List.nodup_cons] at hdistinct
    have hrest := ih hdistinct.2
    unfold schemaEntries Table.get? at hrest ⊢
    rw [List.filterMap_cons, List.find?_cons]
    by_cases hkey : key = name
    · subst hkey
      have hnone : Table.get? rest key = none := by
        rw [← Option.not_isSome_iff_eq_none, Table.isSome_get?_iff]
        exact hdistinct.1
      unfold Table.get? at hnone
      cases hschema : media.schema with
      | none => simpa [hschema, hnone] using hrest
      | some s => simp [hschema]
    · cases hschema : media.schema with
      | none => simpa [hschema, hkey] using hrest
      | some s => simpa [hschema, hkey] using hrest

theorem rel_preferredSchema? {content content' : List (String × MediaType)}
    (h : Table.Rearranged MediaType.Rearranged content content') :
    Option.Rel Schema.Rearranged (preferredSchema? content) (preferredSchema? content') := by
  have hbind (name : String) : Option.Rel Schema.Rearranged
      ((Table.get? content name).bind (·.schema)) ((Table.get? content' name).bind (·.schema)) := by
    generalize Table.get? content name = a, Table.get? content' name = b, h.rel_get? name = hrel
    cases hrel with
    | none => exact .none
    | some hmedia => exact hmedia.schema
  have hleast : Option.Rel Schema.Rearranged ((leastNamed? (schemaEntries content)).map (·.2))
      ((leastNamed? (schemaEntries content')).map (·.2)) := by
    refine rel_leastNamed? fun name => ?_
    rw [get?_schemaEntries h.distinct, get?_schemaEntries h.distinct_right]
    exact hbind name
  unfold preferredSchema?
  generalize (Table.get? content jsonMediaType).bind (·.schema) = a,
    (Table.get? content' jsonMediaType).bind (·.schema) = b, hbind jsonMediaType = hrel
  cases hrel with
  | none => exact hleast
  | some hs => exact .some hs

theorem rel_successResponse? {responses responses' : List (String × OrReference Response)}
    (h : Table.Rearranged (OrReference.Related Response.Rearranged) responses responses') :
    Option.Rel (OrReference.Related Response.Rearranged) (successResponse? responses)
      (successResponse? responses') := by
  have hleast := rel_leastNamed?
    (h.filter fun status => status.toList.head? = some '2').rel_get?
  unfold successResponse?
  generalize Table.get? responses "200" = a, Table.get? responses' "200" = b,
    h.rel_get? "200" = hrel
  cases hrel with
  | some hr => exact .some hr
  | none =>
    dsimp only
    generalize Table.get? responses "201" = a, Table.get? responses' "201" = b,
      h.rel_get? "201" = hrel
    cases hrel with
    | some hr => exact .some hr
    | none => exact hleast

/-! ## Parameters -/

theorem Parameter.Rearranged.name_eq {p p' : Parameter} (h : p.Rearranged p') :
    p.name = p'.name :=
  (Parameter.mk.inj h.others).1

theorem Parameter.Rearranged.place_eq {p p' : Parameter} (h : p.Rearranged p') :
    p.place = p'.place :=
  (Parameter.mk.inj h.others).2.1

theorem agreeUpTo_inlineParameters {ps ps' : List (OrReference Parameter)}
    (h : List.Forall₂ (OrReference.Related Parameter.Rearranged) ps ps') :
    AgreeUpTo (List.Forall₂ Parameter.Rearranged) (inlineParameters ps) (inlineParameters ps') := by
  induction h with
  | nil => exact .ok .nil
  | @cons _ _ rest rest' hp _ ih =>
    cases hp with
    | reference target => exact .error _
    | inline hp =>
      rw [inlineParameters, inlineParameters]
      generalize inlineParameters rest = a at ih ⊢
      generalize inlineParameters rest' = b at ih ⊢
      cases ih with
      | error e => exact .error e
      | ok hrest => exact .ok (.cons hp hrest)

/-- A member that fits is replaced, or one is added, in both lists. -/
theorem forall₂_upsert {α β : Type} {R : α → β → Prop} {fits : α → Bool} {fits' : β → Bool}
    {f : α → α} {f' : β → β} {fresh : α} {fresh' : β} (hfits : ∀ a b, R a b → fits a = fits' b)
    (hf : ∀ a b, R a b → R (f a) (f' b)) (hfresh : R fresh fresh') {l : List α} {l' : List β}
    (h : List.Forall₂ R l l') :
    List.Forall₂ R (upsert fits f fresh l) (upsert fits' f' fresh' l') := by
  induction h with
  | nil => exact .cons hfresh .nil
  | @cons a b _ _ hab hrest ih =>
    rw [upsert, upsert, hfits a b hab]
    split
    · exact .cons (hf a b hab) hrest
    · exact .cons hab ih

theorem forall₂_effectiveParameters {shared shared' own own' : List Parameter}
    (hshared : List.Forall₂ Parameter.Rearranged shared shared')
    (hown : List.Forall₂ Parameter.Rearranged own own') :
    List.Forall₂ Parameter.Rearranged (effectiveParameters shared own)
      (effectiveParameters shared' own') := by
  unfold effectiveParameters
  induction hown generalizing shared shared' with
  | nil => exact hshared
  | @cons p p' _ _ hp _ ih =>
    refine ih (forall₂_upsert (fun q q' hq => ?_) (fun _ _ _ => hp) hp hshared)
    rw [Parameter.sameAs, Parameter.sameAs, hp.name_eq, hp.place_eq, hq.name_eq, hq.place_eq]

/-! ## Operations -/

/-- Operations that were found at one path, and are alike. -/
structure ExploredOperation.Rearranged (o o' : ExploredOperation) : Prop where
  path : o.path = o'.path
  method : o.method = o'.method
  operation : o.operation.Rearranged o'.operation
  parameters : List.Forall₂ Parameter.Rearranged o.parameters o'.parameters

/-- The same operations are found. -/
theorem Description.Rearranged.explore {d d' : Description} (h : d.Rearranged d')
    (target : OperationTarget) :
    AgreeUpTo ExploredOperation.Rearranged (d.explore target) (d'.explore target) := by
  unfold Description.explore
  cases Method.ofName? target.method with
  | none => exact .error _
  | some method =>
    dsimp only
    generalize Table.get? d.paths target.path = a, Table.get? d'.paths target.path = b,
      h.paths.rel_get? target.path = hrel
    cases hrel with
    | none => exact .error _
    | @some item item' hitem =>
      dsimp only
      generalize item.operation? method = a, item'.operation? method = b,
        hitem.operation method = hrel
      cases hrel with
      | none => exact .error _
      | @some o o' ho =>
        dsimp only
        generalize inlineParameters item.parameters = a, inlineParameters item'.parameters = b,
          agreeUpTo_inlineParameters hitem.parameters = hshared
        cases hshared with
        | error e => exact .error e
        | ok hshared =>
          dsimp only
          generalize inlineParameters o.parameters = a, inlineParameters o'.parameters = b,
            agreeUpTo_inlineParameters ho.parameters = hown
          cases hown with
          | error e => exact .error e
          | ok hown => exact .ok ⟨rfl, rfl, ho, forall₂_effectiveParameters hshared hown⟩

namespace ExploredOperation.Rearranged

variable {o o' : ExploredOperation}

theorem notFound_eq (h : o.Rearranged o') (what : String) : o.notFound what = o'.notFound what := by
  rw [notFound, notFound, h.path, h.method]

theorem line_eq (h : o.Rearranged o') (lines : Option LineIndex) :
    o.line lines = o'.line lines := by
  rw [line, line, h.path, h.method]

/-- Request bodies have schemas that are alike. -/
theorem requestSchema (h : o.Rearranged o') :
    AgreeUpTo Schema.Rearranged o.requestSchema o'.requestSchema := by
  unfold ExploredOperation.requestSchema
  generalize o.operation.requestBody = a, o'.operation.requestBody = b,
    h.operation.requestBody = hrel
  rw [h.notFound_eq]
  cases hrel with
  | none => exact .error _
  | some hbody =>
    cases hbody with
    | reference target => exact .error _
    | @inline body body' hbody =>
      dsimp only
      generalize preferredSchema? body.content = a, preferredSchema? body'.content = b,
        rel_preferredSchema? hbody.content = hrel
      cases hrel with
      | none => exact .error _
      | some hs => exact .ok hs

/-- Successful responses have schemas that are alike. -/
theorem responseSchema (h : o.Rearranged o') :
    AgreeUpTo Schema.Rearranged o.responseSchema o'.responseSchema := by
  unfold ExploredOperation.responseSchema
  generalize successResponse? o.operation.responses = a,
    successResponse? o'.operation.responses = b, rel_successResponse? h.operation.responses = hrel
  rw [h.notFound_eq]
  cases hrel with
  | none => exact .error _
  | some hresponse =>
    cases hresponse with
    | reference target => exact .error _
    | @inline response response' hresponse =>
      dsimp only
      generalize preferredSchema? response.content = a, preferredSchema? response'.content = b,
        rel_preferredSchema? hresponse.content = hrel
      cases hrel with
      | none => exact .error _
      | some hs => exact .ok hs

end ExploredOperation.Rearranged

end ProviderSchema.OpenApi
