import Mathlib.Data.List.Forall2
import ProviderSchema.Json.ShapedReading
import ProviderSchema.Proofs.Document.Record

/-!
# JSON values as sources

`Source.ofJson` is the source of a text that is nothing but a given value, so readers
that work along a shape read values as well as texts.  A value fits a shape if it is
read along it as it stands: nothing is skipped and nothing is at fault (`Fits`).
There is one lemma for each kind of shape; that for records is about those written as
mappings (`Fits.record`).
-/

namespace ProviderSchema.Json

mutual

/-- The source of a text that is nothing but a value. -/
def Source.ofJson : Json → Source
  | .null => .null
  | .bool b => .bool b
  | .integer n => .number (.integer n)
  | .float x => .number (.float x)
  | .text s => .text s
  | .array items => .array (Items.ofJson items)
  | .object members => .object (Members.ofJson members)

/-- The items of an array, all in the first line. -/
def Items.ofJson : List Json → Items
  | [] => .done
  | item :: rest => .item 1 (Source.ofJson item) (Items.ofJson rest)

/-- The members of an object. -/
def Members.ofJson : List (String × Json) → Members
  | [] => .done
  | (name, value) :: rest => .member (.ok name) (Source.ofJson value) (Members.ofJson rest)

end

mutual

/-- A value is read as it stands. -/
theorem Source.content_ofJson : ∀ json, (Source.ofJson json).content = .ok (.ofJson json)
  | .null => rfl
  | .bool _ => rfl
  | .integer _ => rfl
  | .float _ => rfl
  | .text _ => rfl
  | .array items => by
    rw [Source.ofJson, Source.content, Items.contents_ofJson items]
    rfl
  | .object members => by
    rw [Source.ofJson, Source.content, Members.entries_ofJson members]
    rfl

theorem Items.contents_ofJson :
    ∀ items, (Items.ofJson items).contents = .ok (Content.ofJsonItems items)
  | [] => rfl
  | item :: rest => by
    rw [Items.ofJson, Items.contents, Source.content_ofJson item]
    dsimp only
    rw [Items.contents_ofJson rest]
    rfl

theorem Members.entries_ofJson :
    ∀ members, (Members.ofJson members).entries = .ok (Content.ofJsonMembers members)
  | [] => rfl
  | (name, value) :: rest => by
    rw [Members.ofJson, Members.entries, Source.content_ofJson value]
    dsimp only
    rw [Members.entries_ofJson rest]
    rfl

end

/-- A value is read along a shape as it stands. -/
def Fits (shape : Shape) (json : Json) : Prop :=
  (Source.ofJson json).read shape = .ok (.ofJson json)

variable {shape : Shape}

theorem fits_text (s : String) : Fits .text (.text s) := rfl

theorem fits_flag (b : Bool) : Fits .flag (.bool b) := rfl

/-- A value may stand where `null` may, too. -/
theorem Fits.optional {json : Json} (h : Fits shape json) (hbare : shape.bare = shape) :
    Fits (.optional shape) json := by
  cases shape with
  | optional inner => cases hbare
  | _ => cases json <;> first | rfl | exact h

/-- Every item of a list fits. -/
theorem Fits.list {items : List Json} (h : ∀ item ∈ items, Fits shape item) :
    Fits (.list shape) (.array items) := by
  have hitems : (Items.ofJson items).readAll shape = .ok (Content.ofJsonItems items) := by
    induction items with
    | nil => rfl
    | cons item rest ih =>
      rw [List.forall_mem_cons] at h
      rw [Items.ofJson, Items.readAll, h.1]
      dsimp only
      rw [ih h.2]
      rfl
  show ((Items.ofJson items).readAll shape).map _ = _
  rw [hitems]
  rfl

/-- Every value of a table fits. -/
theorem Fits.table {members : List (String × Json)} (h : ∀ m ∈ members, Fits shape m.2) :
    Fits (.table shape) (.object members) := by
  have hmembers : (Members.ofJson members).readTable shape =
      .ok (Content.ofJsonMembers members) := by
    induction members with
    | nil => rfl
    | cons m rest ih =>
      obtain ⟨name, value⟩ := m
      rw [List.forall_mem_cons] at h
      rw [Members.ofJson, Members.readTable, h.1]
      dsimp only
      rw [ih h.2]
      rfl
  show ((Members.ofJson members).readTable shape).map _ = _
  rw [hmembers]
  rfl

/-- A value that is one of the alternatives. -/
theorem Fits.choice {name : String} {fits : Content → Bool} {json : Json}
    (h : fits (.ofJson json) = true) : Fits (.choice name fits) json := by
  unfold Fits
  cases json with
  | array items =>
    rw [Source.ofJson, Source.read]
    simp only [Shape.bare, Items.contents_ofJson]
    exact if_pos h
  | object members =>
    rw [Source.ofJson, Source.read]
    simp only [Shape.bare, Members.entries_ofJson]
    exact if_pos h
  | _ => exact if_pos h

/-! ## Records -/

/-- A field of a record fits: its value does, if it has one, and it has one if it is
required. -/
structure FieldFits (field : String × Presence × Shape) (value : Option Json) : Prop where
  fits : ∀ json, value = some json → Fits field.2.2 json
  required : field.2.1 = .required → value ≠ none

theorem missingField?_eq_none {seen : List String} {fields : List (String × Presence × Shape)}
    (h : ∀ field ∈ fields, field.2.1 = .required → field.1 ∈ seen) :
    missingField? seen fields = none := by
  induction fields with
  | nil => rfl
  | cons field rest ih =>
    rw [List.forall_mem_cons] at h
    rw [missingField?, if_neg fun hmissing => hmissing.2 (h.1 hmissing.1)]
    exact ih h.2

/-- The fields from some position on are read after those before. -/
theorem readFields_recordMembers {fields before rest : List (String × Presence × Shape)}
    {values : List (Option Json)} (hfields : fields = before ++ rest)
    (hnodup : (fields.map (·.1)).Nodup) (hvalues : List.Forall₂ FieldFits rest values)
    {seen : List String} (hseen : ∀ name ∈ seen, name ∈ before.map (·.1))
    (hrequired : ∀ field ∈ before, field.2.1 = .required → field.1 ∈ seen) :
    (Members.ofJson (recordMembers (rest.map (·.1)) values)).readFields fields seen =
      .ok (Content.ofJsonMembers (recordMembers (rest.map (·.1)) values)) := by
  induction hvalues generalizing before seen with
  | nil =>
    rw [List.append_nil] at hfields
    subst hfields
    rw [List.map_nil, recordMembers, Members.ofJson, Members.readFields,
      missingField?_eq_none hrequired]
    · rfl
    · simp
  | @cons field value rest values hfield _ ih =>
    have hsplit : fields = (before ++ [field]) ++ rest := by simp [hfields]
    cases value with
    | none =>
      refine ih hsplit (fun name hname => ?_) fun other hother hpresence => ?_
      · rw [List.map_append]
        exact List.mem_append_left _ (hseen name hname)
      · rcases List.mem_append.mp hother with hother | hother
        · exact hrequired other hother hpresence
        · rw [List.mem_singleton.mp hother] at hpresence
          exact absurd rfl (hfield.required hpresence)
    | some json =>
      rw [List.map_cons, recordMembers, member?, List.singleton_append, Members.ofJson,
        Members.readFields]
      have hnew : field.1 ∉ before.map (·.1) := notMem_names_before (hfields ▸ hnodup)
      have hfind : fields.find? (fun other => decide (other.1 = field.1)) = some field := by
        rw [hfields, List.find?_append, List.find?_eq_none.mpr ?_]
        · simp
        · intro other hother
          have hne : other.1 ≠ field.1 := fun heq => hnew (heq ▸ List.mem_map_of_mem hother)
          simpa using hne
      have hseen' : ∀ name ∈ field.1 :: seen, name ∈ (before ++ [field]).map (·.1) := by
        intro name hname
        rw [List.map_append]
        rcases List.mem_cons.mp hname with rfl | hname
        · exact List.mem_append_right _ List.mem_cons_self
        · exact List.mem_append_left _ (hseen name hname)
      have hrequired' : ∀ other ∈ before ++ [field], other.2.1 = .required →
          other.1 ∈ field.1 :: seen := by
        intro other hother hpresence
        rcases List.mem_append.mp hother with hother | hother
        · exact List.mem_cons_of_mem _ (hrequired other hother hpresence)
        · rw [List.mem_singleton.mp hother]
          exact List.mem_cons_self
      rw [hfind]
      dsimp only
      rw [if_neg fun hmem => hnew (hseen _ hmem), hfield.fits json rfl]
      dsimp only
      rw [ih hsplit hseen' hrequired']
      rfl

/-- A record that is written as a mapping fits if its fields do. -/
theorem Fits.record (name : String) {fields : List (String × Presence × Shape)}
    {values : List (Option Json)} (hnodup : (fields.map (·.1)).Nodup)
    (hvalues : List.Forall₂ FieldFits fields values) :
    Fits (.record name fields) (.object (recordMembers (fields.map (·.1)) values)) := by
  have hsplit : fields = [] ++ fields := rfl
  have hread := readFields_recordMembers hsplit hnodup hvalues
    (fun _ h => absurd h List.not_mem_nil) (fun _ h => absurd h List.not_mem_nil)
  show ((Members.ofJson (recordMembers (fields.map (·.1)) values)).readFields fields []).map _ = _
  rw [hread]
  rfl

end ProviderSchema.Json
