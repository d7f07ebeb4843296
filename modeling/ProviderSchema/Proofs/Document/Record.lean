import ProviderSchema.Document.Shape

/-!
# Records written as mappings

`Json.recordMembers` are the members of a record that is written as a mapping: the
fields that have a value, in order.  Reading them back finds every field at its
position with its value (`exists_fields?_recordMembers`), and nothing under any
other name (`entryFields?_of_forall_ne`).

`Fields.Written` says that a field is there with the value that was written, or is
missing as it was left out.
-/

namespace ProviderSchema

/-- The members of a record with fields of these names, those without a value left
out. -/
def Json.recordMembers : List String → List (Option Json) → List (String × Json)
  | name :: names, value :: values =>
    Json.member? name value ++ recordMembers names values
  | _, _ => []

/-- The value of a list that is left out when it is empty. -/
def Json.listValue (items : List Json) : Option Json :=
  if items.isEmpty then none else some (.array items)

/-- The value of a table that is left out when it is empty. -/
def Json.tableValue (members : List (String × Json)) : Option Json :=
  if members.isEmpty then none else some (.object members)

theorem Json.listMember?_eq (name : String) (items : List Json) :
    listMember? name items = member? name (listValue items) := by
  cases items <;> rfl

theorem Json.objectMember?_eq (name : String) (members : List (String × Json)) :
    objectMember? name members = member? name (tableValue members) := by
  cases members <;> rfl

/-- The field at a position has the value that was written for it, if one was. -/
def Fields.Written (f : Fields) (index : Nat) (value : Option Json) : Prop :=
  f.get? index = value.map .ofJson

theorem Fields.get?_cons (index : Nat) (c : Content) (f : Fields) (i : Nat) :
    Fields.get? ((index, c) :: f) i = if index = i then some c else f.get? i := by
  by_cases h : index = i
  · simp [Fields.get?, h]
  · simp [Fields.get?, h]

theorem Fields.any_eq_false_iff {f : Fields} {i : Nat} :
    f.any (·.1 = i) = false ↔ f.get? i = none := by
  rw [Fields.get?, Option.map_eq_none_iff, List.find?_eq_none, List.any_eq_false]

/-- Where no name is used twice, none is used before. -/
theorem notMem_names_before {α : Type} {before rest : List (String × α)} {field : String × α}
    (h : ((before ++ field :: rest).map (·.1)).Nodup) : field.1 ∉ before.map (·.1) := by
  rw [List.map_append, List.map_cons, List.nodup_append] at h
  exact fun hmem => h.2.2 _ hmem _ List.mem_cons_self rfl

namespace Content

variable {fields : FieldList}

/-- The name of a field names its position. -/
theorem fieldIndex?_name {before rest : FieldList} {field : String × Presence}
    (hfields : fields = before ++ field :: rest) (hnodup : (fields.map (·.1)).Nodup) :
    fieldIndex? fields (.name field.1) = .ok (some before.length) := by
  subst hfields
  have hnew : field.1 ∉ before.map (·.1) := notMem_names_before hnodup
  have hfind : (before ++ field :: rest).findIdx? (fun f => decide (f.1 = field.1)) =
      some before.length := by
    rw [List.findIdx?_append, List.findIdx?_eq_none_iff.mpr ?_]
    · simp [List.findIdx?_cons]
    · intro f hf
      have hne : f.1 ≠ field.1 := fun heq => hnew (heq ▸ List.mem_map_of_mem hf)
      simpa using hne
  rw [fieldIndex?, hfind]

/-- The fields from some position on are found behind those that were found
before. -/
theorem exists_entryFields?_recordMembers {before rest : FieldList}
    (hfields : fields = before ++ rest) (hnodup : (fields.map (·.1)).Nodup)
    {values : List (Option Json)} (hlength : values.length ≤ rest.length) (seen : Fields)
    (hseen : ∀ i, before.length ≤ i → seen.get? i = none) :
    ∃ f, entryFields? fields seen
        (ofJsonMembers (Json.recordMembers (rest.map (·.1)) values)) = some f ∧
      (∀ i, i < before.length → f.get? i = seen.get? i) ∧
      ∀ i, f.Written (before.length + i) values[i]?.join := by
  induction values generalizing before rest seen with
  | nil =>
    refine ⟨seen, ?_, fun _ _ => rfl, fun i => hseen _ (Nat.le_add_right _ _)⟩
    cases rest <;> rfl
  | cons value values ih =>
    cases rest with
    | nil => exact absurd hlength (Nat.not_succ_le_zero _)
    | cons field rest =>
      -- What is found after the first field, if `seen'` is found up to there.
      have hfirst : ∀ seen' : Fields, (∀ i, i ≠ before.length → seen'.get? i = seen.get? i) →
          seen'.Written before.length value →
          ∃ f, entryFields? fields seen'
              (ofJsonMembers (Json.recordMembers (rest.map (·.1)) values)) = some f ∧
            (∀ i, i < before.length → f.get? i = seen.get? i) ∧
            ∀ i, f.Written (before.length + i) (value :: values)[i]?.join := by
        intro seen' hold hnew
        have hsplit : fields = (before ++ [field]) ++ rest := by simp [hfields]
        have hsize : (before ++ [field]).length = before.length + 1 := List.length_append
        have hseen' : ∀ i, (before ++ [field]).length ≤ i → seen'.get? i = none := by
          intro i hi
          rw [hold i (by omega)]
          exact hseen i (by omega)
        obtain ⟨f, hf, hbefore, hwritten⟩ :=
          ih hsplit (Nat.le_of_succ_le_succ hlength) seen' hseen'
        rw [hsize] at hbefore hwritten
        refine ⟨f, hf, fun i hi => ?_, fun i => ?_⟩
        · rw [hbefore i (by omega), hold i (by omega)]
        · cases i with
          | zero => exact (hbefore _ (Nat.lt_succ_self _)).trans hnew
          | succ i =>
            have hi := hwritten i
            rwa [Nat.add_right_comm] at hi
      cases value with
      | none => exact hfirst seen (fun _ _ => rfl) (hseen _ (Nat.le_refl _))
      | some value =>
        obtain ⟨f, hf, hall⟩ := hfirst ((before.length, ofJson value) :: seen)
          (fun i hi => by rw [Fields.get?_cons, if_neg hi.symm])
          (by rw [Fields.Written, Fields.get?_cons, if_pos rfl]; rfl)
        refine ⟨f, ?_, hall⟩
        have hany : seen.any (·.1 = before.length) = false :=
          Fields.any_eq_false_iff.mpr (hseen _ (Nat.le_refl _))
        rw [List.map_cons, Json.recordMembers, Json.member?, List.singleton_append,
          ofJsonMembers, entryFields?, fieldIndex?_name hfields hnodup]
        dsimp only
        rw [hany]
        exact hf

/-- Every field of a record is read with the value that was written for it. -/
theorem exists_fields?_recordMembers (hnodup : (fields.map (·.1)).Nodup)
    {values : List (Option Json)} (hlength : values.length ≤ fields.length) :
    ∃ f, entryFields? fields [] (ofJsonMembers (Json.recordMembers (fields.map (·.1)) values)) =
        some f ∧ ∀ i, f.Written i values[i]?.join := by
  have hsplit : fields = [] ++ fields := rfl
  obtain ⟨f, hf, -, hwritten⟩ :=
    exists_entryFields?_recordMembers hsplit hnodup hlength [] (fun _ _ => rfl)
  refine ⟨f, hf, fun i => ?_⟩
  have hi := hwritten i
  rwa [List.length_nil, Nat.zero_add] at hi

/-- Members under other names are no fields. -/
theorem entryFields?_of_forall_ne {members : List (String × Json)}
    (h : ∀ m ∈ members, m.1 ∉ fields.map (·.1)) (seen : Fields) :
    entryFields? fields seen (ofJsonMembers members) = some seen := by
  induction members with
  | nil => rfl
  | cons m rest ih =>
    obtain ⟨name, value⟩ := m
    rw [List.forall_mem_cons] at h
    have hnone : fields.findIdx? (fun f => decide (f.1 = name)) = none := by
      rw [List.findIdx?_eq_none_iff]
      intro f hf
      have hne : f.1 ≠ name := fun heq => h.1 (List.mem_map.mpr ⟨f, hf, heq⟩)
      simpa using hne
    rw [ofJsonMembers, entryFields?, fieldIndex?, hnone]
    exact ih h.2

end Content

theorem Json.mem_recordMembers {names : List String} {values : List (Option Json)}
    {m : String × Json} (h : m ∈ recordMembers names values) : m.1 ∈ names := by
  induction names generalizing values with
  | nil => cases h
  | cons name names ih =>
    cases values with
    | nil => cases h
    | cons value values =>
      rw [recordMembers, List.mem_append] at h
      rcases h with h | h
      · cases value with
        | none => cases h
        | some v =>
          rw [List.mem_singleton.mp h]
          exact List.mem_cons_self
      · exact List.mem_cons_of_mem _ (ih h)

end ProviderSchema
