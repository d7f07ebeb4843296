import ProviderSchema.Document.Table
import ProviderSchema.Proofs.Document.MergeByKey
import ProviderSchema.Proofs.Document.Part
import ProviderSchema.Proofs.Document.Record

/-!
# Reading back what was written

`ReadsBack read write` says that what `write` makes of a thing is read as the same
thing, if the thing was read itself, from content whose numbers are finite.  It says
nothing about things that cannot be read: a number without limits is one that
cannot be written.

The law is built up as things are: from scalars (`readsBack_text`, `readsBack_flag`,
…) through lists (`ReadsBackAt.list`) and tables (`ReadsBackAt.table`) to the fields
of records (`Fields.optional_again`, `Fields.list_again`, …).  A field that
is left out when it is empty is read as empty; a field that may be `null` is never
written as `null` if it was not `null` before.
-/

namespace ProviderSchema

open Content (ofJson ofJsonItems ofJsonMembers)

variable {α : Type} {read : Content → Option α} {write : α → Json}

/-- What is not written as `null` is there. -/
theorem Content.optional?_ofJson {json : Json} (h : json ≠ .null) :
    (ofJson json).optional? read = (read (ofJson json)).map some := by
  cases json <;> simp_all [ofJson, optional?]

/-- What is read from some content is read again from what is written of it, and is
`null` only if the content was. -/
structure ReadsBackAt (read : Content → Option α) (write : α → Json) (c : Content) : Prop where
  again : ∀ a, read c = some a → read (ofJson (write a)) = some a
  ne_null : ∀ a, read c = some a → c ≠ .null → write a ≠ .null

/-- The same of all content with finite numbers. -/
def ReadsBack (read : Content → Option α) (write : α → Json) : Prop :=
  ∀ c : Content, c.Finite → ReadsBackAt read write c

/-! ## Scalars and free values -/

theorem readsBack_text : ReadsBack Content.text? .text := fun _ _ =>
  ⟨fun _ _ => rfl, fun _ _ _ => Json.noConfusion⟩

theorem readsBack_flag : ReadsBack Content.bool? .bool := fun _ _ =>
  ⟨fun _ _ => rfl, fun _ _ _ => Json.noConfusion⟩

theorem readsBack_natural : ReadsBack Content.natural? fun n => .integer n := fun _ _ => by
  refine ⟨fun n _ => ?_, fun _ _ _ => Json.noConfusion⟩
  rw [ofJson, Content.natural?, if_pos (Int.natCast_nonneg n), Int.toNat_natCast]

/-- A number, written as a bound is. -/
theorem readsBack_number :
    ReadsBack Content.float? fun x => if x.isFinite then .float x else .null := fun _ hc => by
  refine ⟨fun x hx => ?_, fun x hx _ => ?_⟩
  · rw [if_pos (hc.float? hx)]
    rfl
  · rw [if_pos (hc.float? hx)]
    exact Json.noConfusion

theorem readsBack_free : ReadsBack Content.toJson? id := fun c hc => by
  refine ⟨fun value h => Content.toJson?_ofJson_of_toJson? h, fun value h hnull heq => ?_⟩
  have hvalue : c.toJson? = some .null := by rw [h]; exact congrArg some heq
  exact hc.toJson?_ne_null hnull hvalue

/-! ## Lists -/

namespace Content

theorem ofJsonItems_eq_map (items : List Json) : ofJsonItems items = items.map ofJson := by
  induction items with
  | nil => rfl
  | cons item rest ih => rw [ofJsonItems, ih, List.map_cons]

/-- Texts in a list are texts again. -/
theorem texts?_ofJsonItems (names : List String) :
    texts? (ofJsonItems (names.map .text)) = some names := by
  induction names with
  | nil => rfl
  | cons name rest ih =>
    rw [List.map_cons, ofJsonItems, ofJson, texts?, ih, Option.map_some]

end Content

/-- `Option.bind_eq_some_iff` for the binds of `do`.  A chain of them is taken apart
from the outside, not under the binders. -/
theorem bind_eq_some_iff {β : Type} {x : Option α} {f : α → Option β} {b : β} :
    x >>= f = some b ↔ ∃ a, x = some a ∧ f a = some b :=
  Option.bind_eq_some_iff

theorem mapM_eq_some_iff_forall₂ {β : Type} {f : β → Option α} {l : List β} {results : List α} :
    l.mapM f = some results ↔ List.Forall₂ (fun b a => f b = some a) l results := by
  induction l generalizing results with
  | nil => cases results <;> simp
  | cons b rest ih =>
    rw [List.mapM_cons]
    cases results with
    | nil => simp [Option.bind_eq_some_iff]
    | cons a results =>
      simp only [bind_eq_some_iff, Option.pure_def, Option.some_inj,
        List.forall₂_cons, List.cons.injEq, ← ih]
      constructor
      · rintro ⟨a', ha', results', hresults, rfl, rfl⟩
        exact ⟨ha', hresults⟩
      · rintro ⟨ha, hresults⟩
        exact ⟨a, ha, results, hresults, rfl, rfl⟩

/-- The members of a list are read from its items. -/
theorem Content.forall_of_list? {P : α → Prop} {c : Content}
    (hread : ∀ item, c.Holds item → ∀ a, read item = some a → P a) {l : List α}
    (h : c.list? read = some l) : ∀ a ∈ l, P a := by
  cases c with
  | array items =>
    have hitems : ∀ item ∈ items, ∀ a, read item = some a → P a := fun item hitem =>
      hread item (.item hitem)
    rw [Content.list?, mapM_eq_some_iff_forall₂] at h
    clear hread
    induction h with
    | nil => simp
    | @cons item a rest l ha _ ih =>
      rw [List.forall_mem_cons] at hitems ⊢
      exact ⟨hitems.1 a ha, ih hitems.2⟩
  | _ => cases h

/-- A list reads back where all its items do. -/
theorem ReadsBackAt.list {c : Content} (h : ∀ item, c.Holds item → ReadsBackAt read write item) :
    ReadsBackAt (Content.list? read) (fun l => .array (l.map write)) c := by
  refine ⟨fun l hl => ?_, fun _ _ _ => Json.noConfusion⟩
  cases c with
  | array items =>
    have hitems : ∀ item ∈ items, ReadsBackAt read write item := fun item hitem =>
      h item (.item hitem)
    rw [Content.list?, mapM_eq_some_iff_forall₂] at hl
    rw [ofJson, Content.ofJsonItems_eq_map, List.map_map, Content.list?,
      mapM_eq_some_iff_forall₂, List.forall₂_map_left_iff]
    clear h
    induction hl with
    | nil => exact .nil
    | @cons item a rest l hitem _ ih =>
      rw [List.forall_mem_cons] at hitems
      exact .cons (hitems.1.again a hitem) (ih hitems.2)
  | _ => cases hl

theorem ReadsBack.list (h : ReadsBack read write) :
    ReadsBack (Content.list? read) fun l => .array (l.map write) :=
  fun _ hc => .list fun item hitem => h item (hc.of_holds hitem)

/-! ## Tables -/

namespace Table

theorem put_of_notMem {name : String} (value : α) {table : List (String × α)}
    (h : name ∉ table.map (·.1)) : put name value table = table ++ [(name, value)] := by
  induction table with
  | nil => rfl
  | cons entry rest ih =>
    rw [List.map_cons, List.mem_cons, not_or] at h
    rw [put, upsert, if_neg (by simpa using Ne.symm h.1), List.cons_append]
    exact congrArg (entry :: ·) (ih h.2)

theorem nodup_put {name : String} {value : α} {table : List (String × α)}
    (h : (table.map (·.1)).Nodup) : ((put name value table).map (·.1)).Nodup := by
  have hnames : (put name value table).map (·.1) =
      if name ∈ table.map (·.1) then table.map (·.1) else table.map (·.1) ++ [name] :=
    @map_key_upsert _ _ _ (fun entry : String × α => entry.1) (fun entry => (entry.1, value))
      (name, value) (fun _ => rfl) table
  rw [hnames]
  split
  · exact h
  · rename_i hnew
    rw [List.nodup_append]
    refine ⟨h, List.nodup_singleton _, fun a ha b hb => ?_⟩
    rintro rfl
    exact hnew (List.mem_singleton.mp hb ▸ ha)

end Table

namespace Content

/-- The names in a table that is read are different, and its values are values
that are read from the entries. -/
theorem forall_of_tableEntries? {P : α → Prop} {entries : List (Key × Content)}
    {done table : List (String × α)}
    (hread : ∀ e ∈ entries, ∀ a, read e.2 = some a → P a)
    (hdone : (done.map (·.1)).Nodup ∧ ∀ e ∈ done, P e.2)
    (h : tableEntries? read done entries = some table) :
    (table.map (·.1)).Nodup ∧ ∀ e ∈ table, P e.2 := by
  induction entries generalizing done with
  | nil =>
    rw [tableEntries?] at h
    cases h
    exact hdone
  | cons e rest ih =>
    rw [List.forall_mem_cons] at hread
    obtain ⟨key, c⟩ := e
    cases key with
    | name name =>
      rw [tableEntries?] at h
      split at h
      · rename_i a ha
        have hnew : P a := hread.1 a ha
        refine ih hread.2 ⟨Table.nodup_put hdone.1, ?_⟩ h
        exact forall_mem_upsert hdone.2 (fun _ _ _ => hnew) hnew
      · cases h
    | _ =>
      rw [tableEntries?] at h
      · cases h
      · simp

theorem forall_of_table? {P : α → Prop} {c : Content}
    (hread : ∀ part, c.Holds part → ∀ a, read part = some a → P a) {table : List (String × α)}
    (h : c.table? read = some table) : (table.map (·.1)).Nodup ∧ ∀ e ∈ table, P e.2 := by
  cases c with
  | object entries =>
    exact forall_of_tableEntries? (fun e he => hread e.2 (.entry he)) ⟨by simp, by simp⟩ h
  | _ => cases h

/-- The entries of a table are added one after the other when they are read back. -/
theorem tableEntries?_ofJsonMembers {done table : List (String × α)}
    (hread : ∀ e ∈ table, read (ofJson (write e.2)) = some e.2)
    (hnodup : ((done ++ table).map (·.1)).Nodup) :
    tableEntries? read done (ofJsonMembers (table.map fun e => (e.1, write e.2))) =
      some (done ++ table) := by
  induction table generalizing done with
  | nil => rw [List.map_nil, ofJsonMembers, tableEntries?, List.append_nil]
  | cons e rest ih =>
    rw [List.forall_mem_cons] at hread
    have hsplit : done ++ e :: rest = (done ++ [e]) ++ rest := by simp
    have hnew : e.1 ∉ done.map (·.1) := notMem_names_before hnodup
    rw [List.map_cons, ofJsonMembers, tableEntries?, hread.1]
    dsimp only
    rw [Table.put_of_notMem _ hnew, hsplit]
    exact ih hread.2 (hsplit ▸ hnodup)

end Content

/-- A table reads back where all its values do. -/
theorem ReadsBackAt.table {c : Content} (h : ∀ part, c.Holds part → ReadsBackAt read write part) :
    ReadsBackAt (Content.table? read) (fun t => .object (t.map fun e => (e.1, write e.2))) c := by
  refine ⟨fun table htable => ?_, fun _ _ _ => Json.noConfusion⟩
  obtain ⟨hnodup, hvalues⟩ := Content.forall_of_table?
    (P := fun a => read (ofJson (write a)) = some a) (fun part hpart => (h part hpart).again) htable
  rw [ofJson, Content.table?]
  exact Content.tableEntries?_ofJsonMembers hvalues hnodup

theorem ReadsBack.table (h : ReadsBack read write) :
    ReadsBack (Content.table? read) fun t => .object (t.map fun e => (e.1, write e.2)) :=
  fun _ hc => .table fun part hpart => h part (hc.of_holds hpart)

/-! ## The fields of records -/

namespace Fields

variable {f f' : Fields} {index : Nat}

/-- All numbers in the fields of a record are finite. -/
def Finite (f : Fields) : Prop := ∀ i c, f.get? i = some c → c.Finite

/-- A field that must be there. -/
theorem required_again (h : ReadsBack read write) (hf : f.Finite) {a : α}
    (hread : f.required index read = some a) (hwritten : f'.Written index (some (write a))) :
    f'.required index read = some a := by
  rw [required, Option.bind_eq_some_iff] at hread
  obtain ⟨c, hc, ha⟩ := hread
  rw [required, hwritten]
  exact (h c (hf index c hc)).again a ha

/-- A field that may be missing or `null`, and is left out then. -/
theorem optional_again (h : ReadsBack read write) (hf : f.Finite) {x : Option α}
    (hread : f.optional index read = some x) (hwritten : f'.Written index (x.map write)) :
    f'.optional index read = some x := by
  rw [optional, hwritten]
  cases x with
  | none => rfl
  | some a =>
    rw [optional] at hread
    split at hread
    · cases hread
    · rename_i c hc
      have hnull : c ≠ .null := by
        rintro rfl
        cases hread
      have ha : read c = some a := by
        cases c <;> simp_all [Content.optional?]
      have hback := h c (hf index c hc)
      show (ofJson (write a)).optional? read = some (some a)
      rw [Content.optional?_ofJson (hback.ne_null a ha hnull), hback.again a ha, Option.map_some]

/-- A field with a value for the case that it is missing, and left out then. -/
theorem defaulted_again (h : ReadsBack read write) (hf : f.Finite) {fallback a : α}
    {leftOut : Bool} (hleftOut : leftOut = true ↔ a = fallback)
    (hread : f.defaulted index fallback read = some a)
    (hwritten : f'.Written index (if leftOut then none else some (write a))) :
    f'.defaulted index fallback read = some a := by
  cases leftOut with
  | true =>
    rw [defaulted, hwritten, hleftOut.mp rfl]
    rfl
  | false =>
    have hne : a ≠ fallback := fun heq => Bool.noConfusion (hleftOut.mpr heq)
    rw [defaulted, hwritten]
    rw [defaulted] at hread
    split at hread
    · exact absurd (Option.some_inj.mp hread).symm hne
    · rename_i c hc
      exact (h c (hf index c hc)).again a hread

/-- A field with a value for the case that it is missing, and always written. -/
theorem always_again (h : ReadsBack read write) (hf : f.Finite) {fallback a : α}
    (hfallback : read (ofJson (write fallback)) = some fallback)
    (hread : f.defaulted index fallback read = some a)
    (hwritten : f'.Written index (some (write a))) :
    f'.defaulted index fallback read = some a := by
  rw [defaulted, hwritten]
  rw [defaulted] at hread
  split at hread
  · cases hread
    exact hfallback
  · rename_i c hc
    exact (h c (hf index c hc)).again a hread

/-- A flag that is always written. -/
theorem flag_again {fallback b : Bool} (hwritten : f'.Written index (some (.bool b))) :
    f'.defaulted index fallback Content.bool? = some b := by
  rw [defaulted, hwritten]
  rfl

/-- A list that is left out when it is empty. -/
theorem list_again (h : ReadsBack read write) (hf : f.Finite) {l : List α}
    (hread : f.defaulted index [] (Content.list? read) = some l)
    (hwritten : f'.Written index (Json.listValue (l.map write))) :
    f'.defaulted index [] (Content.list? read) = some l :=
  defaulted_again h.list hf (by simp) hread hwritten

/-- A table that is left out when it is empty. -/
theorem table_again (h : ReadsBack read write) (hf : f.Finite) {t : List (String × α)}
    (hread : f.defaulted index [] (Content.table? read) = some t)
    (hwritten : f'.Written index (Json.tableValue (t.map fun e => (e.1, write e.2)))) :
    f'.defaulted index [] (Content.table? read) = some t :=
  defaulted_again h.table hf (by simp) hread hwritten

end Fields

namespace Content

variable {fields : FieldList}

theorem mem_of_entryFields? {entries : List (Key × Content)} {seen f : Fields}
    (h : entryFields? fields seen entries = some f) {i : Nat} {part : Content}
    (hpart : f.get? i = some part) :
    (∃ e ∈ entries, e.2 = part) ∨ seen.get? i = some part := by
  induction entries generalizing seen with
  | nil =>
    rw [entryFields?] at h
    cases h
    exact .inr hpart
  | cons e rest ih =>
    obtain ⟨key, c⟩ := e
    rw [entryFields?] at h
    split at h
    · cases h
    · rcases ih h with ⟨e, he, heq⟩ | hseen
      · exact .inl ⟨e, List.mem_cons_of_mem _ he, heq⟩
      · exact .inr hseen
    · rename_i j _
      split at h
      · cases h
      · rcases ih h with ⟨e, he, heq⟩ | hseen
        · exact .inl ⟨e, List.mem_cons_of_mem _ he, heq⟩
        · rw [Fields.get?_cons] at hseen
          split at hseen
          · exact .inl ⟨(key, c), List.mem_cons_self, Option.some.inj hseen⟩
          · exact .inr hseen

theorem mem_of_itemFields? {items : List Content} {index : Nat} {fields : FieldList}
    {f : Fields} (h : itemFields? index fields items = some f) {i : Nat} {part : Content}
    (hpart : f.get? i = some part) : part ∈ items := by
  induction items generalizing index fields f with
  | nil =>
    have hempty : f = [] := by
      cases fields with
      | nil =>
        rw [itemFields?] at h
        exact (Option.some_inj.mp h).symm
      | cons field fields =>
        rw [itemFields?] at h
        · split at h
          · exact (Option.some_inj.mp h).symm
          · cases h
        · simp
    subst hempty
    cases hpart
  | cons item rest ih =>
    cases fields with
    | nil => cases h
    | cons field fields =>
      rw [itemFields?, Option.map_eq_some_iff] at h
      obtain ⟨f, hrest, rfl⟩ := h
      rw [Fields.get?_cons] at hpart
      split at hpart
      · cases hpart
        exact List.mem_cons_self
      · exact List.mem_cons_of_mem _ (ih hrest hpart)

/-- The fields of a record are parts of its content. -/
theorem holds_of_fields? {c : Content} {f : Fields} (h : c.fields? fields = some f) {i : Nat}
    {part : Content} (hpart : f.get? i = some part) : c.Holds part := by
  cases c with
  | object entries =>
    rcases mem_of_entryFields? h hpart with ⟨e, he, rfl⟩ | hseen
    · exact .entry he
    · cases hseen
  | array items => exact .item (mem_of_itemFields? h hpart)
  | _ => cases h

/-- The fields of finite content are finite. -/
theorem Finite.fields? {c : Content} (hc : c.Finite) {f : Fields}
    (h : c.fields? fields = some f) : f.Finite := fun _ _ hpart =>
  hc.of_holds (holds_of_fields? h hpart)

end Content

/-! ## Records -/

/-- A record reads back if its fields, once they are written, are decoded as they
were before. -/
theorem ReadsBack.record {fields : FieldList} (hnodup : (fields.map (·.1)).Nodup)
    {decode : Fields → Option α} {values : α → List (Option Json)}
    (hread : ∀ c : Content, read c = (c.fields? fields).bind decode)
    (hwrite : ∀ a, write a = .object (Json.recordMembers (fields.map (·.1)) (values a)))
    (hlength : ∀ a, (values a).length ≤ fields.length)
    (hagain : ∀ f f' a, f.Finite → decode f = some a →
      (∀ i, f'.Written i (values a)[i]?.join) → decode f' = some a) :
    ReadsBack read write := by
  intro c hc
  refine ⟨fun a ha => ?_, fun a _ _ => ?_⟩
  · rw [hread, Option.bind_eq_some_iff] at ha
    obtain ⟨f, hf, hdecode⟩ := ha
    obtain ⟨f', hf', hwritten⟩ := Content.exists_fields?_recordMembers hnodup (hlength a)
    rw [hread, hwrite, ofJson, Content.fields?, hf']
    exact hagain f f' a (hc.fields? hf) hdecode hwritten
  · rw [hwrite]
    exact Json.noConfusion

end ProviderSchema
