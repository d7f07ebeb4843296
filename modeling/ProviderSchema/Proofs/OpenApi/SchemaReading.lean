import ProviderSchema.OpenApi.SchemaDecoding
import ProviderSchema.Proofs.Document.ReadBack
import ProviderSchema.Proofs.OpenApi.Children

/-!
# What an inline schema is read from

The recursion that reads a schema passes through its child fields.  Seen from one
field, it reads a table, a list or one of two alternatives (`childOf?_properties`,
`childOf?_additional`, `childOf?_items`, `childOf?_members`).  So every child of an
inline schema is read from a part of its content (`ChildrenFrom`), and every schema
that it holds from content below (`ChildrenFrom.exists_part`).
-/

namespace ProviderSchema.OpenApi.Schema

/-! ## One child field -/

theorem table?_eq (done : List (String × Schema)) (entries : List (Key × Content)) :
    table? done entries = Content.tableEntries? ofContent? done entries := by
  induction entries generalizing done with
  | nil => rw [table?, Content.tableEntries?]
  | cons e rest ih =>
    obtain ⟨key, c⟩ := e
    cases key with
    | name name =>
      rw [table?, Content.tableEntries?]
      cases ofContent? c with
      | none => rfl
      | some s => exact ih _
    | _ => rw [table?, Content.tableEntries?] <;> simp

theorem list?_eq (items : List Content) : list? items = items.mapM ofContent? := by
  induction items with
  | nil =>
    rw [list?]
    rfl
  | cons item rest ih =>
    rw [list?, List.mapM_cons, ih]
    cases ofContent? item <;> cases rest.mapM ofContent? <;> rfl

/-- What stands under `additionalProperties`, unless it is `null`. -/
def additional? : Content → Option (Additional Schema)
  | .bool b => some (.allowed b)
  | c => (ofContent? c).map .schema

/-- What stands under `items`, unless it is `null`. -/
def items? : Content → Option (Items Schema)
  | .bool b => some (.allowed b)
  | .array items =>
    match items.mapM ofContent? with
    | some schemas => some (.tuple schemas)
    | none => (ofContent? (.array items)).map .schema
  | c => (ofContent? c).map .schema

theorem ofContent?_of_additional? {c : Content} {s : Schema}
    (h : additional? c = some (.schema s)) : ofContent? c = some s := by
  cases c <;> simp_all [additional?]

theorem ofContent?_of_items? {c : Content} {s : Schema} (h : items? c = some (.schema s)) :
    ofContent? c = some s := by
  cases c with
  | array items =>
    rw [items?] at h
    split at h
    · cases h
    · simpa using h
  | _ => simp_all [items?]

/-- A tuple is a list. -/
theorem list?_of_items? {c : Content} {members : List Schema}
    (h : items? c = some (.tuple members)) : Content.list? ofContent? c = some members := by
  cases c with
  | array items =>
    rw [items?] at h
    split at h
    · cases h
      assumption
    · simp at h
  | _ => simp [items?] at h

section ChildOf

variable (done : Children Schema) (c : Content)

theorem childOf?_none : childOf? none done c = some done := by
  cases c <;> rw [childOf?] <;> simp

theorem childOf?_properties :
    childOf? (some .properties) done c =
      (Content.table? ofContent? c).map fun t => { done with properties := t } := by
  cases c with
  | object entries =>
    rw [childOf?, table?_eq]
    rfl
  | _ => rw [childOf?] <;> simp [Content.table?]

theorem childOf?_additional :
    childOf? (some .additional) done c =
      (c.optional? additional?).map fun a => { done with additional := a.or done.additional } := by
  cases c with
  | object entries =>
    rw [childOf?, Content.optional?, additional?, ofContent?] <;>
      simp [Option.map_map, Function.comp_def]
  | array items =>
    rw [childOf?, Content.optional?, additional?, ofContent?] <;>
      simp [Option.map_map, Function.comp_def]
  | _ => rw [childOf?] <;> simp [Content.optional?, additional?, ofContent?]

theorem childOf?_items :
    childOf? (some .items) done c =
      (c.optional? items?).map fun a => { done with items := a.or done.items } := by
  cases c with
  | object entries =>
    rw [childOf?, Content.optional?, items?, ofContent?] <;>
      simp [Option.map_map, Function.comp_def]
  | array items =>
    rw [childOf?, Content.optional?, items?, ofContent?]
    · rw [list?_eq]
      cases items.mapM ofContent? <;> simp [Option.map_map, Function.comp_def]
    · simp
  | _ => rw [childOf?] <;> simp [Content.optional?, items?, ofContent?]

/-- One of the three lists of schemas. -/
theorem childOf?_members {field : ChildField}
    (hfield : field = .allOf ∨ field = .oneOf ∨ field = .anyOf) :
    childOf? (some field) done c =
      (Content.list? ofContent? c).bind fun schemas => withMembers done schemas field := by
  rcases hfield with rfl | rfl | rfl <;>
  · cases c with
    | array items =>
      rw [childOf?, list?_eq] <;> simp [Content.list?]
    | _ => rw [childOf?] <;> simp [Content.list?]

end ChildOf

/-! ## All children -/

/-- Children that are read from parts of some content. -/
structure ChildrenFrom (content : Content) (c : Children Schema) : Prop where
  properties : c.properties = [] ∨
    ∃ part, content.Holds part ∧ Content.table? ofContent? part = some c.properties
  additional : ∀ a, c.additional = some a →
    ∃ part, content.Holds part ∧ additional? part = some a
  items : ∀ a, c.items = some a → ∃ part, content.Holds part ∧ items? part = some a
  allOf : c.allOf = [] ∨
    ∃ part, content.Holds part ∧ Content.list? ofContent? part = some c.allOf
  oneOf : c.oneOf = [] ∨
    ∃ part, content.Holds part ∧ Content.list? ofContent? part = some c.oneOf
  anyOf : c.anyOf = [] ∨
    ∃ part, content.Holds part ∧ Content.list? ofContent? part = some c.anyOf

variable {content part : Content} {done c : Children Schema}

theorem childrenFrom_empty (content : Content) : ChildrenFrom content {} := by
  constructor <;> simp

/-- A node that may be absent is the same as one that is there, unless it is `null`. -/
theorem exists_of_optional?_or {α : Type} {read : Content → Option α} {x old : Option α} {a : α}
    (hread : part.optional? read = some x) (h : x.or old = some a) :
    read part = some a ∨ old = some a := by
  cases x with
  | none => exact .inr h
  | some found =>
    obtain rfl : found = a := Option.some_inj.mp h
    cases part <;> simp_all [Content.optional?]

/-- The children with those of one field more. -/
theorem ChildrenFrom.childOf? {field : Option ChildField} (hdone : ChildrenFrom content done)
    (hpart : content.Holds part) (h : childOf? field done part = some c) :
    ChildrenFrom content c := by
  cases field with
  | none =>
    rw [childOf?_none] at h
    cases h
    exact hdone
  | some field =>
    cases field with
    | properties =>
      rw [childOf?_properties, Option.map_eq_some_iff] at h
      obtain ⟨table, htable, rfl⟩ := h
      exact { hdone with properties := .inr ⟨part, hpart, htable⟩ }
    | additional =>
      rw [childOf?_additional, Option.map_eq_some_iff] at h
      obtain ⟨x, hx, rfl⟩ := h
      refine { hdone with additional := fun a ha => ?_ }
      rcases exists_of_optional?_or hx ha with hread | hold
      · exact ⟨part, hpart, hread⟩
      · exact hdone.additional a hold
    | items =>
      rw [childOf?_items, Option.map_eq_some_iff] at h
      obtain ⟨x, hx, rfl⟩ := h
      refine { hdone with items := fun a ha => ?_ }
      rcases exists_of_optional?_or hx ha with hread | hold
      · exact ⟨part, hpart, hread⟩
      · exact hdone.items a hold
    | allOf =>
      rw [childOf?_members _ _ (.inl rfl), Option.bind_eq_some_iff] at h
      obtain ⟨schemas, hschemas, hset⟩ := h
      cases hset
      exact { hdone with allOf := .inr ⟨part, hpart, hschemas⟩ }
    | oneOf =>
      rw [childOf?_members _ _ (.inr (.inl rfl)), Option.bind_eq_some_iff] at h
      obtain ⟨schemas, hschemas, hset⟩ := h
      cases hset
      exact { hdone with oneOf := .inr ⟨part, hpart, hschemas⟩ }
    | anyOf =>
      rw [childOf?_members _ _ (.inr (.inr rfl)), Option.bind_eq_some_iff] at h
      obtain ⟨schemas, hschemas, hset⟩ := h
      cases hset
      exact { hdone with anyOf := .inr ⟨part, hpart, hschemas⟩ }

theorem ChildrenFrom.childrenOfEntries? {entries : List (Key × Content)}
    (hdone : ChildrenFrom content done) (hentries : ∀ e ∈ entries, content.Holds e.2)
    (h : childrenOfEntries? done entries = some c) : ChildrenFrom content c := by
  induction entries generalizing done with
  | nil =>
    rw [Schema.childrenOfEntries?] at h
    cases h
    exact hdone
  | cons e rest ih =>
    rw [List.forall_mem_cons] at hentries
    rw [Schema.childrenOfEntries?] at h
    split at h
    · rename_i next hnext
      exact ih (hdone.childOf? hentries.1 hnext) hentries.2 h
    · cases h

theorem ChildrenFrom.childrenOfItems? {items : List Content} {index : Nat}
    (hdone : ChildrenFrom content done) (hitems : ∀ item ∈ items, content.Holds item)
    (h : childrenOfItems? index done items = some c) : ChildrenFrom content c := by
  induction items generalizing index done with
  | nil =>
    rw [Schema.childrenOfItems?] at h
    cases h
    exact hdone
  | cons item rest ih =>
    rw [List.forall_mem_cons] at hitems
    rw [Schema.childrenOfItems?] at h
    split at h
    · rename_i next hnext
      exact ih (hdone.childOf? hitems.1 hnext) hitems.2 h
    · cases h

/-- Every schema that is held is read from content below. -/
theorem ChildrenFrom.exists_part (h : ChildrenFrom content c) {s : Schema} (hs : c.Holds s) :
    ∃ part, part.Below content ∧ ofContent? part = some s := by
  -- A list or a table is a part itself, so its members are parts of a part.
  have hlist : ∀ {schemas : List Schema}, schemas = [] ∨ (∃ part, content.Holds part ∧
      Content.list? ofContent? part = some schemas) → s ∈ schemas →
      ∃ part, part.Below content ∧ ofContent? part = some s := by
    rintro schemas (rfl | ⟨part, hpart, hschemas⟩) hmem
    · cases hmem
    · exact Content.forall_of_list? (P := fun s => ∃ part, part.Below content ∧
        ofContent? part = some s) (fun item hitem s hs => ⟨item, hitem.below.trans hpart.below, hs⟩)
        hschemas s hmem
  cases hs with
  | property name hmem =>
    rcases h.properties with hnil | ⟨part, hpart, htable⟩
    · rw [hnil] at hmem
      cases hmem
    · exact (Content.forall_of_table? (P := fun s => ∃ part, part.Below content ∧
        ofContent? part = some s) (fun item hitem s hs => ⟨item, hitem.below.trans hpart.below, hs⟩)
        htable).2 (name, s) hmem
  | additional hs =>
    obtain ⟨part, hpart, hread⟩ := h.additional _ hs
    exact ⟨part, hpart.below, ofContent?_of_additional? hread⟩
  | items hs =>
    obtain ⟨part, hpart, hread⟩ := h.items _ hs
    exact ⟨part, hpart.below, ofContent?_of_items? hread⟩
  | tuple members hitems hmem =>
    obtain ⟨part, hpart, hread⟩ := h.items _ hitems
    exact hlist (.inr ⟨part, hpart, list?_of_items? hread⟩) hmem
  | composed hmem =>
    simp only [List.mem_append] at hmem
    rcases hmem with (hmem | hmem) | hmem
    · exact hlist h.allOf hmem
    · exact hlist h.anyOf hmem
    · exact hlist h.oneOf hmem

theorem ChildrenFrom.nodup_properties (h : ChildrenFrom content c) :
    (c.properties.map (·.1)).Nodup := by
  rcases h.properties with hnil | ⟨part, _, htable⟩
  · simp [hnil]
  · exact (Content.forall_of_table? (P := fun _ => True) (fun _ _ _ _ => trivial) htable).1

/-! ## Inline schemas -/

theorem pair_eq_some_iff {children : Option (Children Schema)} {k : Keywords} :
    inlineOfContent?.pair content children = some (k, c) ↔
      ∃ f, content.fields? fieldList = some f ∧ keywords? f = some k ∧ children = some c := by
  simp only [inlineOfContent?.pair, bind_eq_some_iff, Option.pure_def, Option.some_inj,
    Prod.mk.injEq]
  constructor
  · rintro ⟨f, hf, k, hk, c, hc, rfl, rfl⟩
    exact ⟨f, hf, hk, hc⟩
  · rintro ⟨f, hf, hk, hc⟩
    exact ⟨f, hf, k, hk, c, hc, rfl, rfl⟩

/-- An inline schema is read from the fields of its content, and its children from
the parts. -/
theorem fields_of_inlineOfContent? {k : Keywords} (h : inlineOfContent? content = some (k, c)) :
    (∃ f, content.fields? fieldList = some f ∧ keywords? f = some k) ∧
      ChildrenFrom content c := by
  cases content with
  | object entries =>
    obtain ⟨f, hf, hk, hc⟩ := pair_eq_some_iff.mp h
    exact ⟨⟨f, hf, hk⟩, (childrenFrom_empty _).childrenOfEntries? (fun e he => .entry he) hc⟩
  | array items =>
    obtain ⟨f, hf, hk, hc⟩ := pair_eq_some_iff.mp h
    exact ⟨⟨f, hf, hk⟩, (childrenFrom_empty _).childrenOfItems? (fun item hitem => .item hitem) hc⟩
  | _ => cases h

theorem inline?_eq_some_iff {children : Option (Children Schema)} {k : Keywords} :
    inline? content children = some (.inline k c) ↔
      inlineOfContent?.pair content children = some (k, c) := by
  rw [pair_eq_some_iff]
  simp only [inline?, bind_eq_some_iff, Option.pure_def, Option.some_inj, Schema.inline.injEq]
  constructor
  · rintro ⟨f, hf, k, hk, c, hc, rfl, rfl⟩
    exact ⟨f, hf, hk, hc⟩
  · rintro ⟨f, hf, hk, hc⟩
    exact ⟨f, hf, k, hk, c, hc, rfl, rfl⟩

/-- So is one that is read where a reference might stand as well. -/
theorem fields_of_ofContent?_eq_inline {k : Keywords}
    (h : ofContent? content = some (.inline k c)) :
    (∃ f, content.fields? fieldList = some f ∧ keywords? f = some k) ∧
      ChildrenFrom content c := by
  refine fields_of_inlineOfContent? ?_
  cases content with
  | object entries =>
    rw [ofContent?, ofEntries?] at h
    split at h
    · cases h
    · exact inline?_eq_some_iff.mp h
  | array items =>
    rw [ofContent?] at h
    exact inline?_eq_some_iff.mp h
  | _ =>
    rw [ofContent?] at h
    · cases h
    all_goals simp

end ProviderSchema.OpenApi.Schema
