import ProviderSchema.Proofs.Document.Rearranged
import ProviderSchema.Proofs.Document.Record

/-!
# When two values are the same

A JSON value does not know in which order the members of its objects were
written, and what is no finite number is the value `null`.  `Json.SameValue`
compares values accordingly.  Its parameter tells which finite numbers are the
same, so that a sign of zero may count or not.

Objects are the same if they agree under every name.  A member that only the
name tells can therefore be compared on its own: by `sameValue_member?_append`
it is split from the members that follow, whether or not it is there.
-/

namespace ProviderSchema

open Decimal (Binary64)

namespace Table

@[simp]
theorem get?_member? (name : String) (value : Option Json) (other : String) :
    get? (Json.member? name value) other = if name = other then value else none := by
  cases value <;> simp [Json.member?]

theorem get?_member?_append (name : String) (value : Option Json) (t : List (String × Json))
    (other : String) :
    get? (Json.member? name value ++ t) other =
      if name = other then value.or (get? t other) else get? t other := by
  cases value <;> simp [Json.member?]

end Table

namespace Json

/-- The value is `null`, or what is written as `null`. -/
inductive StandsForNull : Json → Prop where
  | null : StandsForNull .null
  | float {x : Binary64} (h : x.isFinite = false) : StandsForNull (.float x)

/-- Two values are the same if `same` tells so of finite numbers. -/
inductive SameValue (same : Binary64 → Binary64 → Prop) : Json → Json → Prop where
  | null {value value' : Json} (h : value.StandsForNull) (h' : value'.StandsForNull) :
      SameValue same value value'
  | bool (b : Bool) : SameValue same (.bool b) (.bool b)
  | integer (n : Int) : SameValue same (.integer n) (.integer n)
  | float {x y : Binary64} (hx : x.isFinite = true) (hy : y.isFinite = true) (h : same x y) :
      SameValue same (.float x) (.float y)
  | text (s : String) : SameValue same (.text s) (.text s)
  | array {items items' : List Json} (h : List.Forall₂ (SameValue same) items items') :
      SameValue same (.array items) (.array items')
  | object {members members' : List (String × Json)}
      (h : ∀ name, Option.Rel (SameValue same) (Table.get? members name)
        (Table.get? members' name)) : SameValue same (.object members) (.object members')

variable {same : Binary64 → Binary64 → Prop}

/-! ## Scalars and arrays -/

@[simp]
theorem sameValue_bool_iff {b b' : Bool} : SameValue same (.bool b) (.bool b') ↔ b = b' := by
  constructor
  · intro h
    cases h with
    | null h => cases h
    | bool => rfl
  · rintro rfl
    exact .bool b

@[simp]
theorem sameValue_integer_iff {n n' : Int} :
    SameValue same (.integer n) (.integer n') ↔ n = n' := by
  constructor
  · intro h
    cases h with
    | null h => cases h
    | integer => rfl
  · rintro rfl
    exact .integer n

@[simp]
theorem sameValue_text_iff {s s' : String} : SameValue same (.text s) (.text s') ↔ s = s' := by
  constructor
  · intro h
    cases h with
    | null h => cases h
    | text => rfl
  · rintro rfl
    exact .text s

theorem sameValue_float_iff {x y : Binary64} (hx : x.isFinite = true) :
    SameValue same (.float x) (.float y) ↔ y.isFinite = true ∧ same x y := by
  constructor
  · intro h
    cases h with
    | null h =>
      cases h with
      | float h => rw [hx] at h; cases h
    | float _ hy h => exact ⟨hy, h⟩
  · rintro ⟨hy, h⟩
    exact .float hx hy h

@[simp]
theorem sameValue_array_iff {items items' : List Json} :
    SameValue same (.array items) (.array items') ↔
      List.Forall₂ (SameValue same) items items' := by
  constructor
  · intro h
    cases h with
    | null h => cases h
    | array h => exact h
  · exact .array

theorem rel_listValue_iff {items items' : List Json} :
    Option.Rel (SameValue same) (listValue items) (listValue items') ↔
      List.Forall₂ (SameValue same) items items' := by
  cases items <;> cases items' <;> simp [listValue]

/-! ## Objects -/

/-- A name that is none of the fields is looked up among the members that follow. -/
theorem get?_recordMembers_append {names : List String} {name : String} (h : name ∉ names)
    (values : List (Option Json)) (members : List (String × Json)) :
    Table.get? (recordMembers names values ++ members) name = Table.get? members name := by
  induction names generalizing values with
  | nil => simp [recordMembers]
  | cons other names ih =>
    obtain ⟨hother, hnames⟩ := List.ne_and_not_mem_of_not_mem_cons h
    cases values with
    | nil => simp [recordMembers]
    | cons value values =>
      rw [recordMembers, List.append_assoc, Table.get?_member?_append, if_neg (Ne.symm hother),
        ih hnames]

theorem sameValue_object_iff {members members' : List (String × Json)} :
    SameValue same (.object members) (.object members') ↔
      ∀ name, Option.Rel (SameValue same) (Table.get? members name)
        (Table.get? members' name) := by
  constructor
  · intro h
    cases h with
    | null h => cases h
    | object h => exact h
  · exact .object

theorem sameValue_empty : SameValue same (.object []) (.object []) := .object fun _ => .none

section Members

variable {name name' : String} {value value' : Json} {members members' : List (String × Json)}

/-- A member is compared on its own if no member that follows has its name. -/
theorem sameValue_member?_append {optional optional' : Option Json}
    (hfresh : Table.get? members name = none) (hfresh' : Table.get? members' name = none) :
    SameValue same (.object (member? name optional ++ members))
        (.object (member? name optional' ++ members')) ↔
      Option.Rel (SameValue same) optional optional' ∧
        SameValue same (.object members) (.object members') := by
  simp only [sameValue_object_iff, Table.get?_member?_append]
  constructor
  · intro h
    constructor
    · simpa [hfresh, hfresh'] using h name
    · intro other
      by_cases hother : name = other
      · rw [← hother, hfresh, hfresh']
        exact .none
      · simpa [hother] using h other
  · rintro ⟨hvalue, hrest⟩ other
    by_cases hother : name = other
    · simpa [← hother, hfresh, hfresh'] using hvalue
    · simpa [hother] using hrest other

theorem sameValue_member? {optional optional' : Option Json} :
    SameValue same (.object (member? name optional)) (.object (member? name optional')) ↔
      Option.Rel (SameValue same) optional optional' := by
  have h : SameValue same (.object (member? name optional ++ []))
      (.object (member? name optional' ++ [])) ↔ _ := sameValue_member?_append rfl rfl
  simpa [sameValue_empty] using h

theorem sameValue_cons (hfresh : Table.get? members name = none)
    (hfresh' : Table.get? members' name = none) :
    SameValue same (.object ((name, value) :: members)) (.object ((name, value') :: members')) ↔
      SameValue same value value' ∧ SameValue same (.object members) (.object members') := by
  show SameValue same (.object (member? name (some value) ++ members))
    (.object (member? name (some value') ++ members')) ↔ _
  rw [sameValue_member?_append hfresh hfresh', Option.rel_some_some]

/-- The fields of a record are compared one by one, and apart from the members
that follow. -/
theorem sameValue_recordMembers_append {names : List String} (hdistinct : names.Nodup)
    {values values' : List (Option Json)} (hlength : values.length = names.length)
    (hlength' : values'.length = names.length)
    (hfresh : ∀ name ∈ names, Table.get? members name = none)
    (hfresh' : ∀ name ∈ names, Table.get? members' name = none) :
    SameValue same (.object (recordMembers names values ++ members))
        (.object (recordMembers names values' ++ members')) ↔
      List.Forall₂ (Option.Rel (SameValue same)) values values' ∧
        SameValue same (.object members) (.object members') := by
  induction names generalizing values values' with
  | nil =>
    obtain rfl := List.eq_nil_of_length_eq_zero hlength
    obtain rfl := List.eq_nil_of_length_eq_zero hlength'
    simp [recordMembers]
  | cons name names ih =>
    obtain ⟨value, values, rfl⟩ := List.exists_cons_of_length_eq_add_one hlength
    obtain ⟨value', values', rfl⟩ := List.exists_cons_of_length_eq_add_one hlength'
    obtain ⟨hnotMem, hdistinct⟩ := List.nodup_cons.mp hdistinct
    rw [List.forall_mem_cons] at hfresh hfresh'
    simp only [recordMembers, List.append_assoc, List.forall₂_cons, and_assoc]
    rw [sameValue_member?_append, ih hdistinct (by simpa using hlength) (by simpa using hlength')
      hfresh.2 hfresh'.2]
    · rw [get?_recordMembers_append hnotMem, hfresh.1]
    · rw [get?_recordMembers_append hnotMem, hfresh'.1]

/-- An object with one member tells its name as well. -/
theorem sameValue_singleton :
    SameValue same (.object [(name, value)]) (.object [(name', value')]) ↔
      name = name' ∧ SameValue same value value' := by
  constructor
  · intro h
    have hvalue := sameValue_object_iff.mp h name
    by_cases hname : name' = name
    · refine ⟨hname.symm, ?_⟩
      simpa [hname] using hvalue
    · simp [hname] at hvalue
  · rintro ⟨rfl, h⟩
    exact (sameValue_cons rfl rfl).mpr ⟨h, sameValue_empty⟩

end Members

end Json

end ProviderSchema
