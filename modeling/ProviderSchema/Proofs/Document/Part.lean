import Mathlib.Data.String.Basic
import Mathlib.Logic.Relation
import ProviderSchema.Document.Content

/-!
# The parts of a node's content

`Content.Holds` says that content stands directly in other content, and `Below`
that it stands somewhere in it.  What passes from everything below on to the
content holds of all content (`Content.inductionOnParts`).

`Content.AllNumbers` says that all numbers in a piece of content pass a test, and
`Content.Finite` that they are within the range of floating-point numbers.

A free value that was read from content is read from itself as well
(`toJson?_ofJson_of_toJson?`): its members are sorted already.
-/

namespace ProviderSchema

/-- What is asked of numbers, of integers and of floating-point numbers. -/
structure NumberTest where
  integer : Int → Prop
  float : Decimal.Binary64 → Prop

/-- A number is within the range of floating-point numbers. -/
def finiteNumbers : NumberTest where
  integer n := (Decimal.Binary64.ofInt n).isFinite = true
  float x := x.isFinite = true

namespace Content

/-! ## Parts -/

/-- Content stands directly in other content. -/
inductive Holds : Content → Content → Prop where
  | item {items : List Content} {part : Content} (h : part ∈ items) : Holds (.array items) part
  | entry {entries : List (Key × Content)} {key : Key} {part : Content}
      (h : (key, part) ∈ entries) : Holds (.object entries) part

theorem Holds.sizeOf_lt {c part : Content} (h : c.Holds part) : sizeOf part < sizeOf c := by
  cases h with
  | item h =>
    have hlt := List.sizeOf_lt_of_mem h
    rw [array.sizeOf_spec]
    omega
  | entry h =>
    have hlt := List.sizeOf_lt_of_mem h
    rw [Prod.mk.sizeOf_spec] at hlt
    rw [object.sizeOf_spec]
    omega

/-- Content stands somewhere in other content. -/
def Below (part c : Content) : Prop := Relation.TransGen (fun a b => b.Holds a) part c

theorem Holds.below {c part : Content} (h : c.Holds part) : part.Below c := .single h

theorem Below.trans {a b c : Content} (h : a.Below b) (h' : b.Below c) : a.Below c :=
  Relation.TransGen.trans h h'

/-- Content is other content or stands somewhere in it. -/
def Within (part c : Content) : Prop := part = c ∨ part.Below c

theorem within_self (c : Content) : c.Within c := .inl rfl

theorem Within.below {part c c' : Content} (h : part.Within c) (hbelow : c.Below c') :
    part.Below c' := by
  rcases h with rfl | h
  · exact hbelow
  · exact h.trans hbelow

theorem Within.trans {part c c' : Content} (h : part.Within c) (h' : c.Within c') :
    part.Within c' := by
  rcases h' with rfl | hbelow
  · exact h
  · exact .inr (h.below hbelow)

theorem Below.sizeOf_lt {part c : Content} (h : part.Below c) : sizeOf part < sizeOf c := by
  induction h with
  | single h => exact h.sizeOf_lt
  | tail _ h ih => exact ih.trans h.sizeOf_lt

/-- What passes from all parts of content on to the content holds of all content. -/
theorem inductionOnParts {motive : Content → Prop}
    (step : ∀ c, (∀ part, Below part c → motive part) → motive c) (c : Content) : motive c :=
  step c fun part h =>
    have := h.sizeOf_lt
    inductionOnParts step part
termination_by sizeOf c

/-! ## Numbers -/

/-- The number that content is, if it is one, passes a test. -/
def HasNumber (t : NumberTest) : Content → Prop
  | .integer n => t.integer n
  | .float x => t.float x
  | _ => True

/-- All numbers in content pass a test. -/
structure AllNumbers (t : NumberTest) (c : Content) : Prop where
  own : c.HasNumber t
  below : ∀ part : Content, part.Below c → part.HasNumber t

variable {t : NumberTest}

theorem AllNumbers.of_below {c part : Content} (h : c.AllNumbers t) (hpart : part.Below c) :
    part.AllNumbers t :=
  ⟨h.below part hpart, fun _ hbelow => h.below _ (hbelow.trans hpart)⟩

theorem AllNumbers.of_within {c part : Content} (h : c.AllNumbers t) (hpart : part.Within c) :
    part.AllNumbers t := by
  rcases hpart with rfl | hpart
  · exact h
  · exact h.of_below hpart

theorem AllNumbers.of_holds {c part : Content} (h : c.AllNumbers t) (hpart : c.Holds part) :
    part.AllNumbers t :=
  h.of_below hpart.below

theorem allNumbers_of_holds {c : Content} (own : c.HasNumber t)
    (h : ∀ part, c.Holds part → part.AllNumbers t) : c.AllNumbers t := by
  refine ⟨own, fun part hpart => ?_⟩
  cases hpart with
  | single hheld => exact (h part hheld).own
  | tail hbelow hheld => exact (h _ hheld).below part hbelow

theorem allNumbers_array {items : List Content} (h : ∀ c ∈ items, c.AllNumbers t) :
    (array items).AllNumbers t :=
  allNumbers_of_holds trivial fun _ hheld => by cases hheld with | item hmem => exact h _ hmem

theorem allNumbers_object {entries : List (Key × Content)}
    (h : ∀ e ∈ entries, e.2.AllNumbers t) : (object entries).AllNumbers t :=
  allNumbers_of_holds trivial fun _ hheld => by cases hheld with | entry hmem => exact h _ hmem

theorem AllNumbers.mono {t' : NumberTest} {c : Content} (h : c.AllNumbers t)
    (hinteger : ∀ n, t.integer n → t'.integer n) (hfloat : ∀ x, t.float x → t'.float x) :
    c.AllNumbers t' := by
  have hnumber : ∀ {c : Content}, c.HasNumber t → c.HasNumber t' := fun {c} hc => by
    cases c with
    | integer n => exact hinteger n hc
    | float x => exact hfloat x hc
    | _ => trivial
  exact ⟨hnumber h.own, fun part hpart => hnumber (h.below part hpart)⟩

/-- Content that holds no other has to be looked at itself. -/
theorem allNumbers_scalar {c : Content} (hitems : ∀ items, c ≠ .array items)
    (hentries : ∀ entries, c ≠ .object entries) (h : c.HasNumber t) : c.AllNumbers t :=
  allNumbers_of_holds h fun _ hheld => by
    cases hheld with
    | item => exact absurd rfl (hitems _)
    | entry => exact absurd rfl (hentries _)

/-- All numbers in content are within the range of floating-point numbers. -/
def Finite (c : Content) : Prop := c.AllNumbers finiteNumbers

/-- A number that is read from finite content is finite. -/
theorem Finite.float? {c : Content} (h : c.Finite) {x : Decimal.Binary64}
    (hx : c.float? = some x) : x.isFinite = true := by
  cases c with
  | integer n => cases hx; exact h.own
  | float y => cases hx; exact h.own
  | _ => cases hx

/-! ## Free values -/

/-- A member that comes after all others is put at the end. -/
theorem insertMember_of_forall_lt {name : String} {value : Json} {members : List (String × Json)}
    (h : ∀ m ∈ members, m.1 < name) :
    Json.insertMember name value members = members ++ [(name, value)] := by
  induction members with
  | nil => rfl
  | cons m rest ih =>
    obtain ⟨other, old⟩ := m
    rw [List.forall_mem_cons] at h
    have hlt : other < name := h.1
    rw [Json.insertMember, if_neg hlt.ne', if_neg hlt.asymm, ih h.2, List.cons_append]

theorem mem_insertMember {name : String} {value : Json} {members : List (String × Json)}
    {m : String × Json} (h : m ∈ Json.insertMember name value members) :
    m = (name, value) ∨ m ∈ members := by
  induction members with
  | nil => exact .inl (List.mem_singleton.mp h)
  | cons first rest ih =>
    obtain ⟨other, old⟩ := first
    rw [Json.insertMember] at h
    split at h
    · rcases List.mem_cons.mp h with rfl | h
      · exact .inl rfl
      · exact .inr (List.mem_cons_of_mem _ h)
    split at h
    · rcases List.mem_cons.mp h with rfl | h
      · exact .inl rfl
      · exact .inr h
    · rcases List.mem_cons.mp h with rfl | h
      · exact .inr List.mem_cons_self
      · exact (ih h).imp_right (List.mem_cons_of_mem _)

/-- Members stay sorted when one is added. -/
theorem pairwise_insertMember {name : String} {value : Json} {members : List (String × Json)}
    (h : members.Pairwise fun m n => m.1 < n.1) :
    (Json.insertMember name value members).Pairwise fun m n => m.1 < n.1 := by
  induction members with
  | nil => exact List.pairwise_singleton _ _
  | cons first rest ih =>
    obtain ⟨other, old⟩ := first
    rw [List.pairwise_cons] at h
    rw [Json.insertMember]
    split
    · rename_i heq
      subst heq
      exact List.pairwise_cons.mpr h
    split
    · rename_i hlt
      refine List.pairwise_cons.mpr ⟨fun m hm => ?_, List.pairwise_cons.mpr h⟩
      rcases List.mem_cons.mp hm with rfl | hm
      · exact hlt
      · exact hlt.trans (h.1 m hm)
    · rename_i hne hnlt
      have hlt : other < name := lt_of_le_of_ne (not_lt.mp hnlt) (Ne.symm hne)
      refine List.pairwise_cons.mpr ⟨fun m hm => ?_, ih h.2⟩
      rcases mem_insertMember hm with rfl | hm
      · exact hlt
      · exact h.1 m hm

/-- Sorted members that are read again are added one after the other at the end. -/
theorem toJsonMembers?_ofJsonMembers {done members : List (String × Json)}
    (hvalues : ∀ m ∈ members, toJson? (ofJson m.2) = some m.2)
    (hsorted : (done ++ members).Pairwise fun m n => m.1 < n.1) :
    toJsonMembers? done (ofJsonMembers members) = some (done ++ members) := by
  induction members generalizing done with
  | nil => rw [ofJsonMembers, toJsonMembers?, List.append_nil]
  | cons m rest ih =>
    obtain ⟨name, value⟩ := m
    rw [List.forall_mem_cons] at hvalues
    have hlast : ∀ m ∈ done, m.1 < name := fun m hm =>
      (List.pairwise_append.mp hsorted).2.2 m hm (name, value) List.mem_cons_self
    rw [ofJsonMembers, toJsonMembers?, hvalues.1]
    dsimp only
    have hrest : done ++ (name, value) :: rest = (done ++ [(name, value)]) ++ rest := by simp
    rw [insertMember_of_forall_lt hlast, hrest, ih hvalues.2 (hrest ▸ hsorted)]

theorem toJsonItems?_ofJsonItems {items : List Json}
    (h : ∀ item ∈ items, toJson? (ofJson item) = some item) :
    toJsonItems? (ofJsonItems items) = some items := by
  induction items with
  | nil => rfl
  | cons item rest ih =>
    rw [List.forall_mem_cons] at h
    rw [ofJsonItems, toJsonItems?, h.1, ih h.2]

theorem forall_of_toJsonItems? {items : List Content} {values : List Json} {P : Json → Prop}
    (hread : ∀ c ∈ items, ∀ value, c.toJson? = some value → P value)
    (h : toJsonItems? items = some values) : ∀ value ∈ values, P value := by
  induction items generalizing values with
  | nil =>
    cases h
    simp
  | cons c rest ih =>
    rw [List.forall_mem_cons] at hread
    rw [toJsonItems?] at h
    split at h
    · rename_i value values hc hrest
      cases h
      exact List.forall_mem_cons.mpr ⟨hread.1 value hc, ih hread.2 hrest⟩
    · cases h

theorem forall_of_toJsonMembers? {entries : List (Key × Content)} {P : Json → Prop}
    {done members : List (String × Json)}
    (hread : ∀ e ∈ entries, ∀ value, e.2.toJson? = some value → P value)
    (hdone : (∀ m ∈ done, P m.2) ∧ done.Pairwise fun m n => m.1 < n.1)
    (h : toJsonMembers? done entries = some members) :
    (∀ m ∈ members, P m.2) ∧ members.Pairwise fun m n => m.1 < n.1 := by
  induction entries generalizing done with
  | nil =>
    rw [toJsonMembers?] at h
    cases h
    exact hdone
  | cons e rest ih =>
    rw [List.forall_mem_cons] at hread
    obtain ⟨key, c⟩ := e
    cases key with
    | name name =>
      rw [toJsonMembers?] at h
      split at h
      · rename_i value hc
        refine ih hread.2 ⟨fun m hm => ?_, pairwise_insertMember hdone.2⟩ h
        rcases mem_insertMember hm with rfl | hm
        · exact hread.1 value hc
        · exact hdone.1 m hm
      · cases h
    | _ =>
      rw [toJsonMembers?] at h
      · cases h
      · simp

/-- A free value that was read is read again from itself. -/
theorem toJson?_ofJson_of_toJson? {c : Content} {value : Json} (h : c.toJson? = some value) :
    toJson? (ofJson value) = some value := by
  induction c using inductionOnParts generalizing value with
  | step c ih =>
    cases c with
    | array items =>
      rw [toJson?, Option.map_eq_some_iff] at h
      obtain ⟨values, hvalues, rfl⟩ := h
      have hitems := forall_of_toJsonItems? (P := fun v => toJson? (ofJson v) = some v)
        (fun c hc v hv => ih c (Holds.item hc).below hv) hvalues
      rw [ofJson, toJson?, toJsonItems?_ofJsonItems hitems, Option.map_some]
    | object entries =>
      rw [toJson?, Option.map_eq_some_iff] at h
      obtain ⟨members, hmembers, rfl⟩ := h
      obtain ⟨hvalues, hsorted⟩ := forall_of_toJsonMembers?
        (P := fun v => toJson? (ofJson v) = some v)
        (fun e he v hv => ih e.2 (Holds.entry he).below hv) ⟨by simp, List.Pairwise.nil⟩ hmembers
      rw [ofJson, toJson?, toJsonMembers?_ofJsonMembers hvalues (by simpa using hsorted)]
      simp
    | float x =>
      rw [toJson?, Option.some_inj] at h
      subst h
      by_cases hx : x.isFinite = true <;> simp [hx, ofJson, toJson?]
    | _ =>
      cases h
      rfl

/-- Nothing but `null` becomes `null`, where all numbers are finite. -/
theorem Finite.toJson?_ne_null {c : Content} (h : c.Finite) (hc : c ≠ .null) :
    c.toJson? ≠ some .null := by
  cases c with
  | null => exact absurd rfl hc
  | float x =>
    have hx : x.isFinite = true := h.own
    simp [toJson?, hx]
  | _ => simp [toJson?]

end Content

end ProviderSchema
