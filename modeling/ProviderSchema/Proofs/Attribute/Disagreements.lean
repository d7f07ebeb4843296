import Mathlib.Data.List.Infix
import ProviderSchema.Proofs.Attribute.FragmentMerge

/-!
# Where two trees of attributes disagree

The disagreements that are met while attributes are merged come out of two
recursions, one through nested attributes and one through the shapes of values.
Here they are described by positions alone: two fragments disagree at a position
if something stands there in both of them, the shapes of the two differ, and
those at every position above are the same (`Fragment.disagreement?`).

`Attribute.attributeMismatches_eq_filterMap` states that the disagreements are
listed exactly, in the order of the positions of the source.  If none is listed,
everything that the source has occurs in what is merged, and conversely; and
where one is listed, nothing is changed from there on.
-/

namespace ProviderSchema

/-! ## Positions -/

mutual

/-- The positions of what stands in the shape of a value, itself first. -/
def ElementType.positions : ElementType → List (List Segment)
  | .scalar _ => [[]]
  | .collection _ element => [] :: element.positions.map (.members :: ·)
  | .object fields => [] :: fieldPositions fields

/-- The positions of fields, each with what is below it. -/
def ElementType.fieldPositions : List (String × ElementType) → List (List Segment)
  | [] => []
  | (name, type) :: rest => type.positions.map (.named name :: ·) ++ fieldPositions rest

end

mutual

/-- The positions of what stands in an attribute, itself first. -/
def Attribute.positions : Attribute → List (List Segment)
  | .scalar .. => [[]]
  | .collection _ _ _ element => [] :: element.positions.map (.members :: ·)
  | .nested _ _ _ attributes => [] :: allPositions attributes
  | .single _ _ attributes => [] :: allPositions attributes

/-- The positions of attributes, each with what is below it. -/
def Attribute.allPositions : List Attribute → List (List Segment)
  | [] => []
  | a :: rest => a.positions.map (.named a.name :: ·) ++ allPositions rest

end

/-- The names along a position.  The members of a collection have none. -/
def Segment.names (position : List Segment) : List String :=
  position.filterMap fun
    | .named name => some name
    | .members => none

theorem Segment.foldl_names_cons (segment : Segment) (rest : List Segment) (path : String) :
    (names (segment :: rest)).foldl below path =
      (names rest).foldl below (segment.extend path) := by
  cases segment <;> rfl

namespace Fragment

variable {t s r f g : Fragment} {segment : Segment} {position : List Segment} {path : String}

/-- The positions of what stands in a fragment, itself first. -/
def positions : Fragment → List (List Segment)
  | .list attributes => [] :: Attribute.allPositions attributes
  | .item a => a.positions
  | .value t => t.positions

theorem allPositions_eq_flatMap (attributes : List Attribute) :
    Attribute.allPositions attributes =
      (ofAttributes attributes).flatMap fun part => part.2.positions.map (part.1 :: ·) := by
  induction attributes with
  | nil => rw [Attribute.allPositions]; rfl
  | cons a rest ih => rw [Attribute.allPositions, ih]; rfl

theorem fieldPositions_eq_flatMap (fields : List (String × ElementType)) :
    ElementType.fieldPositions fields =
      (ofFields fields).flatMap fun part => part.2.positions.map (part.1 :: ·) := by
  induction fields with
  | nil => rw [ElementType.fieldPositions]; rfl
  | cons field rest ih => rw [ElementType.fieldPositions, ih]; rfl

/-- First comes the fragment, then one part after the other. -/
theorem positions_eq (f : Fragment) :
    f.positions = [] :: f.parts.flatMap fun part => part.2.positions.map (part.1 :: ·) := by
  cases f with
  | list attributes => rw [positions, allPositions_eq_flatMap]; rfl
  | item a =>
    cases a with
    | scalar => rfl
    | collection =>
      rw [positions, Attribute.positions]
      exact congrArg _ (List.append_nil _).symm
    | nested => rw [positions, Attribute.positions, allPositions_eq_flatMap]; rfl
    | single => rw [positions, Attribute.positions, allPositions_eq_flatMap]; rfl
  | value t =>
    cases t with
    | scalar => rfl
    | collection =>
      rw [positions, ElementType.positions]
      exact congrArg _ (List.append_nil _).symm
    | object => rw [positions, ElementType.positions, fieldPositions_eq_flatMap]; rfl

theorem forall_mem_positions {P : List Segment → Prop} :
    (∀ position ∈ f.positions, P position) ↔
      P [] ∧ ∀ part ∈ f.parts, ∀ rest ∈ part.2.positions, P (part.1 :: rest) := by
  simp only [positions_eq f, List.forall_mem_cons, List.mem_flatMap, List.mem_map]
  refine and_congr_right fun _ => ⟨fun h part hpart rest hrest => ?_, ?_⟩
  · exact h _ ⟨part, hpart, rest, hrest, rfl⟩
  · rintro h _ ⟨part, hpart, rest, hrest, rfl⟩
    exact h part hpart rest hrest

/-- Something stands at each position. -/
theorem Unique.exists_at? (h : f.Unique) :
    ∀ position ∈ f.positions, ∃ g, f.at? position = some g := by
  induction f using inductionOnParts with
  | step f ih =>
    rw [forall_mem_positions]
    refine ⟨⟨f, rfl⟩, fun part hpart rest hrest => ?_⟩
    rw [at?_cons, h.child?_eq_some hpart]
    exact ih part hpart (h.of_mem_parts hpart) rest hrest

theorem at?_append (f : Fragment) (position rest : List Segment) :
    f.at? (position ++ rest) = (f.at? position).bind (·.at? rest) := by
  induction position generalizing f with
  | nil => rfl
  | cons segment position ih =>
    rw [List.cons_append, at?_cons, at?_cons, Option.bind_assoc]
    exact congrArg _ (funext ih)

/-! ## Disagreements -/

/-- Two fragments have the same shapes at every position above another one. -/
def AgreeAbove (t s : Fragment) (position : List Segment) : Prop :=
  ∀ above, above <+: position → above ≠ position → t.shapeAt? above = s.shapeAt? above

instance : Decidable (AgreeAbove t s position) :=
  decidable_of_iff
    (∀ above ∈ position.inits, above ≠ position → t.shapeAt? above = s.shapeAt? above)
    (by simp only [AgreeAbove, List.mem_inits])

/-- The disagreement of two fragments at a position, if there is one: something
stands there in both, of shapes that differ, and above these are the same. -/
def disagreement? (path : String) (t s : Fragment) (position : List Segment) : Option Mismatch :=
  match t.at? position, s.at? position with
  | some f, some g =>
    if f.shapeName ≠ g.shapeName ∧ AgreeAbove t s position then
      some ⟨(Segment.names position).foldl below path, f.shapeName, g.shapeName⟩
    else none
  | _, _ => none

theorem agreeAbove_nil (t s : Fragment) : AgreeAbove t s [] :=
  fun _ hprefix hne => absurd (List.prefix_nil.mp hprefix) hne

theorem agreeAbove_cons (hf : t.child? segment = some f) (hg : s.child? segment = some g) :
    AgreeAbove t s (segment :: position) ↔ t.shapeName = s.shapeName ∧ AgreeAbove f g position := by
  have hbelow : ∀ above, t.shapeAt? (segment :: above) = s.shapeAt? (segment :: above) ↔
      f.shapeAt? above = g.shapeAt? above := by
    intro above
    rw [shapeAt?, shapeAt?, at?_cons, at?_cons, hf, hg]
    rfl
  constructor
  · intro h
    refine ⟨Option.some.inj (h [] (List.nil_prefix) (List.cons_ne_nil _ _).symm), ?_⟩
    intro above hprefix hne
    refine (hbelow above).mp (h _ ((List.prefix_cons_inj segment).mpr hprefix) ?_)
    exact fun heq => hne (List.cons.inj heq).2
  · rintro ⟨hshape, h⟩ above hprefix hne
    rcases List.prefix_cons_iff.mp hprefix with rfl | ⟨rest, rfl, hrest⟩
    · exact congrArg some hshape
    · exact (hbelow rest).mpr (h rest hrest fun heq => hne (heq ▸ rfl))

theorem disagreement?_nil (path : String) (t s : Fragment) :
    disagreement? path t s [] =
      if t.shapeName = s.shapeName then none else some ⟨path, t.shapeName, s.shapeName⟩ := by
  by_cases h : t.shapeName = s.shapeName
  · simp [disagreement?, h]
  · simp [disagreement?, h, agreeAbove_nil, Segment.names]

/-- Below fragments that differ already there is no disagreement. -/
theorem disagreement?_cons_of_shapeName_ne (h : t.shapeName ≠ s.shapeName) :
    disagreement? path t s (segment :: position) = none := by
  have habove : ¬ AgreeAbove t s (segment :: position) := fun hagree =>
    h (Option.some.inj (hagree [] List.nil_prefix (List.cons_ne_nil _ _).symm))
  rw [disagreement?]
  split
  · exact if_neg fun hboth => habove hboth.2
  · rfl

/-- Where a part is missing there is no disagreement. -/
theorem disagreement?_cons_of_child?_eq_none (h : t.child? segment = none) :
    disagreement? path t s (segment :: position) = none := by
  rw [disagreement?, at?_cons, h]
  rfl

theorem disagreement?_cons (hshape : t.shapeName = s.shapeName) (hf : t.child? segment = some f)
    (hg : s.child? segment = some g) :
    disagreement? path t s (segment :: position) =
      disagreement? (segment.extend path) f g position := by
  simp only [disagreement?, at?_cons, hf, hg, Option.bind_some, agreeAbove_cons hf hg, hshape,
    true_and, Segment.foldl_names_cons]

/-- What is reported stands in both fragments. -/
theorem exists_child?_of_disagreement? {m : Mismatch}
    (h : disagreement? path t s (segment :: position) = some m) :
    t.shapeName = s.shapeName ∧ ∃ f g, t.child? segment = some f ∧ s.child? segment = some g ∧
      disagreement? (segment.extend path) f g position = some m := by
  by_cases hshape : t.shapeName = s.shapeName
  case neg => rw [disagreement?_cons_of_shapeName_ne hshape] at h; cases h
  cases hf : t.child? segment with
  | none => rw [disagreement?_cons_of_child?_eq_none hf] at h; cases h
  | some f =>
    cases hg : s.child? segment with
    | none =>
      rw [disagreement?, at?_cons s, hg] at h
      split at h <;> simp_all
    | some g =>
      rw [disagreement?_cons hshape hf hg] at h
      exact ⟨hshape, f, g, rfl, rfl, h⟩

/-! ## What is listed -/

/-- The disagreements are listed in the order of the positions of the source. -/
theorem mismatches_eq_filterMap (hlevel : t.level = s.level) (hs : s.Unique) (path : String) :
    t.mismatches path s = s.positions.filterMap (disagreement? path t s) := by
  induction s using inductionOnParts generalizing t path with
  | step s ih =>
    rw [positions_eq, List.filterMap_cons, disagreement?_nil, List.filterMap_flatMap]
    by_cases hshape : t.shapeName = s.shapeName
    · have halike := alike_of_shapeName_eq hlevel hshape
      rw [if_pos hshape, halike.mismatches_eq_flatMap hs path]
      refine List.flatMap_congr fun part hpart => ?_
      have hg := hs.child?_eq_some hpart
      rw [List.filterMap_map, partMismatches]
      cases hf : lookup t.parts part.1 with
      | none =>
        have hnone : disagreement? path t s ∘ (part.1 :: ·) = fun _ => none :=
          funext fun _ => disagreement?_cons_of_child?_eq_none hf
        rw [hnone]
        exact (List.filterMap_eq_nil_iff.mpr fun _ _ => rfl).symm
      | some f =>
        have hsome : disagreement? path t s ∘ (part.1 :: ·) =
            disagreement? (part.1.extend path) f part.2 :=
          funext fun _ => disagreement?_cons hshape hf hg
        rw [hsome]
        exact ih part hpart (halike.level_eq_of_child? hf hg) (hs.of_mem_parts hpart) _
    · have hnone : ∀ part ∈ s.parts,
          (part.2.positions.map (part.1 :: ·)).filterMap (disagreement? path t s) = [] := by
        intro part _
        rw [List.filterMap_eq_nil_iff]
        intro position hposition
        obtain ⟨rest, -, rfl⟩ := List.mem_map.mp hposition
        exact disagreement?_cons_of_shapeName_ne hshape
      rw [if_neg hshape, mismatches_of_shapeName_ne hlevel hshape,
        List.flatMap_eq_nil_iff.mpr hnone]

/-- Something stands at a position in both of two fragments, of one shape. -/
def SameAt (r s : Fragment) (position : List Segment) : Prop :=
  ∃ f g, r.at? position = some f ∧ s.at? position = some g ∧ f.shapeName = g.shapeName

theorem sameAt_cons (hf : r.child? segment = some f) (hg : s.child? segment = some g) :
    SameAt r s (segment :: position) ↔ SameAt f g position := by
  rw [SameAt, at?_cons, at?_cons, hf, hg]
  rfl

/-- Nothing is listed if and only if all that the source has occurs in what is
merged. -/
theorem mismatches_eq_nil_iff (hlevel : t.level = s.level) (hs : s.Unique) (path : String) :
    t.mismatches path s = [] ↔ ∀ position ∈ s.positions, SameAt (t.merge s) s position := by
  induction s using inductionOnParts generalizing t path with
  | step s ih =>
    rw [forall_mem_positions]
    by_cases hshape : t.shapeName = s.shapeName
    · have halike := alike_of_shapeName_eq hlevel hshape
      have hroot : SameAt (t.merge s) s [] :=
        ⟨_, _, rfl, rfl, (shapeName_merge t s).trans hshape⟩
      rw [halike.mismatches_eq_flatMap hs path, List.flatMap_eq_nil_iff, and_iff_right hroot]
      refine forall₂_congr fun part hpart => ?_
      have hg := hs.child?_eq_some hpart
      have hmerge := halike.child?_merge hs part.1
      rw [hg] at hmerge
      rw [partMismatches]
      cases hf : t.child? part.1 with
      | none =>
        rw [hf, Option.merge_none_left] at hmerge
        rw [child?] at hf
        rw [hf]
        refine iff_of_true rfl fun rest hrest => (sameAt_cons hmerge hg).mpr ?_
        obtain ⟨g, hat⟩ := (hs.of_mem_parts hpart).exists_at? rest hrest
        exact ⟨g, g, hat, hat, rfl⟩
      | some f =>
        rw [hf] at hmerge
        have hlevel' := halike.level_eq_of_child? hf hg
        rw [child?] at hf
        rw [hf]
        simp only [sameAt_cons hmerge hg]
        exact ih part hpart hlevel' (hs.of_mem_parts hpart) _
    · rw [mismatches_of_shapeName_ne hlevel hshape]
      refine iff_of_false (List.cons_ne_nil _ _) ?_
      rintro ⟨⟨_, _, ⟨⟩, ⟨⟩, hsame⟩, -⟩
      exact hshape ((shapeName_merge t s).symm.trans hsame)

/-- Where a disagreement is listed, what stands there is kept. -/
theorem at?_merge_of_disagreement? (hlevel : t.level = s.level) (hs : s.Unique) {m : Mismatch}
    (h : disagreement? path t s position = some m) : (t.merge s).at? position = t.at? position := by
  induction position generalizing t s path with
  | nil =>
    rw [disagreement?_nil] at h
    split at h
    · cases h
    · rename_i hshape
      rw [merge_of_shapeName_ne hshape]
  | cons segment rest ih =>
    obtain ⟨hshape, f, g, hf, hg, hrest⟩ := exists_child?_of_disagreement? h
    have halike := alike_of_shapeName_eq hlevel hshape
    have hpart := hs.of_mem_parts (mem_parts_of_child?_eq_some hg)
    rw [at?_cons, at?_cons, halike.child?_merge hs, hf, hg]
    exact ih (halike.level_eq_of_child? hf hg) hpart hrest

end Fragment

namespace Attribute

variable {target source : List Attribute}

/-- Merging one source lists exactly the positions of the source at which it and the
target disagree, in their order.  Nothing is listed if and only if all that the
source has occurs in the result; and from a position that is listed on, the result
is the target. -/
theorem attributeMismatches_eq_filterMap (target : List Attribute) (h : UniqueNames source) :
    attributeMismatches target [source] =
        (allPositions source).filterMap (Fragment.disagreement? "" (.list target) (.list source)) ∧
      (attributeMismatches target [source] = [] ↔ ∀ position ∈ allPositions source,
        Fragment.SameAt (.list (mergeAttributes target [source])) (.list source) position) ∧
      ∀ position m, Fragment.disagreement? "" (.list target) (.list source) position = some m →
        ∀ rest, Fragment.at? (.list (mergeAttributes target [source])) (position ++ rest) =
          Fragment.at? (.list target) (position ++ rest) := by
  have hlevel : Fragment.level (.list target) = Fragment.level (.list source) := rfl
  have hunique : Fragment.Unique (.list source) := h
  rw [Fragment.attributeMismatches_singleton]
  refine ⟨?_, ?_, fun position m hm rest => ?_⟩
  · rw [Fragment.mismatches_eq_filterMap hlevel hunique, Fragment.positions,
      List.filterMap_cons, Fragment.disagreement?_nil]
    rfl
  · rw [Fragment.mismatches_eq_nil_iff hlevel hunique, Fragment.positions, List.forall_mem_cons]
    exact and_iff_right ⟨_, _, rfl, rfl, rfl⟩
  · rw [Fragment.at?_append, Fragment.at?_append]
    have hkept := Fragment.at?_merge_of_disagreement? hlevel hunique hm
    exact congrArg (fun found : Option Fragment => found.bind fun f => f.at? rest) hkept

/-- A text attribute. -/
def plainText (name : String) : Attribute :=
  .scalar name { computability := .optional } (.string none)

/-- An owner with an identifier, and tags with keys and weights. -/
def ownedTags : List Attribute :=
  [.single "owner" { computability := .optional } [plainText "id"],
    .collection "tags" { computability := .optional } .list
      (.object [("key", .scalar .string), ("weight", .scalar .int64)])]

/-- The same with other shapes of the keys and of the identifier, and with more
names. -/
def numberedTags : List Attribute :=
  [.collection "tags" { computability := .optional } .list
      (.object [("key", .collection .set (.scalar .string)), ("note", .scalar .string),
        ("weight", .scalar .int64)]),
    .single "owner" { computability := .optional }
      [.scalar "id" { computability := .optional } (.int64 none), plainText "name"],
    plainText "kind"]

/-- The keys of the tags and the identifier of the owner are reported, and kept as
they were. -/
theorem attributeMismatches_eq_filterMap_numberedTags :
    UniqueNames numberedTags ∧
      attributeMismatches ownedTags [numberedTags] =
        [⟨"tags.key", "string", "set"⟩, ⟨"owner.id", "string", "int64"⟩] ∧
      Fragment.at? (.list (mergeAttributes ownedTags [numberedTags]))
          [.named "owner", .named "id"] =
        some (.item (plainText "id")) := by
  have hunique : UniqueNames numberedTags := by decide
  obtain ⟨hlisted, -, hkept⟩ := attributeMismatches_eq_filterMap ownedTags hunique
  have hid : Fragment.disagreement? "" (.list ownedTags) (.list numberedTags)
      [.named "owner", .named "id"] = some ⟨"owner.id", "string", "int64"⟩ := by decide +kernel
  exact ⟨hunique, hlisted.trans (by decide +kernel), hkept _ _ hid []⟩

end Attribute

end ProviderSchema
