import ProviderSchema.Proofs.Attribute.Covers
import ProviderSchema.Proofs.Attribute.Disagreements

/-!
# Merging a source again

What a target has got from a source it does not get again.  A second merge of
the same source changes nothing, and it meets the disagreements of the first
one once more, since what disagreed was kept.

Both are proved for fragments, part by part.  `Fragment.Alike.merge_eq_self`
says when a source adds nothing to a fragment that it is alike: if it describes
nothing that is not described, and none of its parts adds anything to the part
of the target at its segment.  After a merge there is such a part for each of
the source, either a merged one (`Fragment.merge_merge_self`) or one that was
taken over as it is (`Fragment.merge_self`).
-/

namespace ProviderSchema

namespace Fragment

variable {t s f g : Fragment}

/-! ## Sources that add nothing -/

/-- Parts that add nothing to those at their segments add nothing to the list. -/
theorem mergeAll_eq_self {target source : List Attribute}
    (h : ∀ part ∈ ofAttributes source,
      ∃ f, lookup (ofAttributes target) part.1 = some f ∧ f.merge part.2 = f) :
    Attribute.mergeAll target source = target := by
  rw [Attribute.mergeAll_eq_mergeByKey]
  refine mergeByKey_eq_target fun b hb => ?_
  obtain ⟨f, hf, hmerge⟩ := h (.named b.name, .item b) (List.mem_map_of_mem hb)
  rw [lookup_ofAttributes_named, Option.map_eq_some_iff] at hf
  obtain ⟨a, ha, rfl⟩ := hf
  exact ⟨a, ha, item.inj hmerge⟩

theorem mergeFields_eq_self {target source : List (String × ElementType)}
    (h : ∀ part ∈ ofFields source,
      ∃ f, lookup (ofFields target) part.1 = some f ∧ f.merge part.2 = f) :
    ElementType.mergeFields target source = target := by
  rw [ElementType.mergeFields_eq_mergeByKey]
  refine mergeByKey_eq_target fun b hb => ?_
  obtain ⟨f, hf, hmerge⟩ := h (.named b.1, .value b.2) (List.mem_map_of_mem hb)
  rw [lookup_ofFields_named, Option.map_eq_some_iff] at hf
  obtain ⟨field, hfield, rfl⟩ := hf
  exact ⟨field, hfield, Prod.ext rfl (value.inj hmerge)⟩

theorem merge_element_eq_self {t s : ElementType}
    (h : ∀ part ∈ [((Segment.members, .value s) : Segment × Fragment)],
      ∃ f, lookup [(.members, .value t)] part.1 = some f ∧ f.merge part.2 = f) :
    t.merge s = t := by
  obtain ⟨f, hf, hmerge⟩ := h _ (List.mem_singleton_self _)
  obtain rfl := Option.some.inj hf
  exact value.inj hmerge

/-- A source adds nothing to a fragment if none of its parts does, and if it
describes nothing that is not described. -/
theorem Alike.merge_eq_self (h : Alike t s)
    (htraits : ∀ a b, t = .item a → s = .item b → a.traits.filledFrom b.traits = a.traits)
    (hparts : ∀ part ∈ s.parts, ∃ f, t.child? part.1 = some f ∧ f.merge part.2 = f) :
    t.merge s = t := by
  cases h with
  | list target source => rw [merge, mergeAll_eq_self hparts]
  | @scalar _ _ traits traits' _ _ hkind =>
    have hfilled : traits.filledFrom traits' = traits := htraits _ _ rfl rfl
    rw [merge, Attribute.merge, if_pos hkind, hfilled]
  | @collection _ _ traits traits' kind target source =>
    have hfilled : traits.filledFrom traits' = traits := htraits _ _ rfl rfl
    rw [merge, Attribute.merge, if_pos rfl, hfilled, merge_element_eq_self hparts]
  | @nested _ _ traits traits' kind target source =>
    have hfilled : traits.filledFrom traits' = traits := htraits _ _ rfl rfl
    rw [merge, Attribute.merge, if_pos rfl, hfilled, mergeAll_eq_self hparts]
  | @single _ _ traits traits' target source =>
    have hfilled : traits.filledFrom traits' = traits := htraits _ _ rfl rfl
    rw [merge, Attribute.merge, hfilled, mergeAll_eq_self hparts]
  | scalarValue kind => rfl
  | collectionValue kind target source =>
    rw [merge, ElementType.merge, if_pos rfl, merge_element_eq_self hparts]
  | object target source => rw [merge, ElementType.merge, mergeFields_eq_self hparts]

/-- A fragment with unique names adds nothing to itself. -/
theorem merge_self (h : f.Unique) : f.merge f = f := by
  cases f with
  | list attributes => exact congrArg list (Attribute.coversAll_of_unsupplied_eq h rfl).merge
  | item a => exact congrArg item (Attribute.covers_of_unsupplied_eq h rfl).merge
  | value t => exact congrArg value (ElementType.covers_self h).merge

/-- So it does not disagree with itself. -/
theorem mismatches_self (h : f.Unique) (path : String) : f.mismatches path f = [] := by
  cases f with
  | list attributes => exact (Attribute.coversAll_of_unsupplied_eq h rfl).mismatches path
  | item a => exact (Attribute.covers_of_unsupplied_eq h rfl).mismatches path
  | value t => exact (ElementType.covers_self h).mismatches path

/-! ## Sources that were merged before -/

/-- What was merged adds nothing if it is merged again. -/
theorem merge_merge_self (hlevel : t.level = s.level) (hs : s.Unique) :
    (t.merge s).merge s = t.merge s := by
  induction s using inductionOnParts generalizing t with
  | step s ih =>
    by_cases hshape : t.shapeName = s.shapeName
    · have halike := alike_of_shapeName_eq hlevel hshape
      refine (halike.merge_left s).merge_eq_self ?_ fun part hpart => ?_
      · intro a b ha hb
        cases t with
        | item c =>
          subst hb
          obtain rfl := item.inj ha
          have hvariant : c.variant = b.variant := Attribute.shapeName_eq_iff.mp hshape
          rw [Attribute.traits_merge hvariant, Attribute.filledFrom_assoc,
            Traits.filledFrom_of_description_eq (t := b.traits) rfl]
        | _ => subst hb; cases ha
      · -- The part was merged with one that was there, or it was taken over.
        have hunique := hs.of_mem_parts hpart
        have hpart' := hs.child?_eq_some hpart
        have hmerged := halike.child?_merge hs part.1
        rw [hpart'] at hmerged
        cases hchild : t.child? part.1 with
        | none =>
          rw [hchild] at hmerged
          exact ⟨part.2, hmerged, merge_self hunique⟩
        | some f =>
          rw [hchild] at hmerged
          have hlevel' := halike.level_eq_of_child? hchild hpart'
          exact ⟨f.merge part.2, hmerged, ih part hpart hlevel' hunique⟩
    · rw [merge_of_shapeName_ne hshape, merge_of_shapeName_ne hshape]

/-- What disagreed disagrees again. -/
theorem mismatches_merge_self (hlevel : t.level = s.level) (hs : s.Unique) (path : String) :
    (t.merge s).mismatches path s = t.mismatches path s := by
  induction s using inductionOnParts generalizing t path with
  | step s ih =>
    by_cases hshape : t.shapeName = s.shapeName
    · have halike := alike_of_shapeName_eq hlevel hshape
      rw [(halike.merge_left s).mismatches_eq_flatMap hs, halike.mismatches_eq_flatMap hs]
      refine List.flatMap_congr fun part hpart => ?_
      have hunique := hs.of_mem_parts hpart
      have hpart' := hs.child?_eq_some hpart
      have hmerged := halike.child?_merge hs part.1
      rw [hpart'] at hmerged
      unfold child? at hmerged hpart'
      unfold partMismatches
      cases hchild : lookup t.parts part.1 with
      | none =>
        rw [hchild] at hmerged
        rw [hmerged]
        exact mismatches_self hunique _
      | some f =>
        rw [hchild] at hmerged
        rw [hmerged]
        exact ih part hpart (halike.level_eq_of_child? hchild hpart') hunique _
    · rw [merge_of_shapeName_ne hshape]

end Fragment

/-- Merging a source a second time changes nothing and meets the disagreements of
the first time, in the same order; and a list merged with itself stays as it is,
without any disagreement.  So it is with the shapes of values. -/
theorem mergeAttributes_again {target source : List Attribute} {t s : ElementType}
    (htarget : UniqueNames target) (hsource : UniqueNames source)
    (ht : t.FieldNames List.Nodup) (hs : s.FieldNames List.Nodup) :
    (mergeAttributes (mergeAttributes target [source]) [source] =
          mergeAttributes target [source] ∧
        attributeMismatches (mergeAttributes target [source]) [source] =
          attributeMismatches target [source]) ∧
      (mergeAttributes target [target] = target ∧ attributeMismatches target [target] = []) ∧
      ((t.merge s).merge s = t.merge s ∧
        ∀ path, (t.merge s).mismatches path s = t.mismatches path s) ∧
      t.merge t = t ∧ ∀ path, t.mismatches path t = [] := by
  have hlist : Fragment.level (.list target) = Fragment.level (.list source) := rfl
  have hvalue : Fragment.level (.value t) = Fragment.level (.value s) := rfl
  have hown : Fragment.Unique (.list target) := htarget
  have htype : Fragment.Unique (.value t) := ht
  simp only [Fragment.attributeMismatches_singleton]
  refine ⟨⟨?_, ?_⟩, ⟨?_, ?_⟩, ⟨?_, ?_⟩, ?_, ?_⟩
  · exact Fragment.list.inj (Fragment.merge_merge_self hlist hsource)
  · exact Fragment.mismatches_merge_self hlist hsource ""
  · exact Fragment.list.inj (Fragment.merge_self hown)
  · exact Fragment.mismatches_self hown ""
  · exact Fragment.value.inj (Fragment.merge_merge_self hvalue hs)
  · exact Fragment.mismatches_merge_self hvalue hs
  · exact Fragment.value.inj (Fragment.merge_self htype)
  · exact Fragment.mismatches_self htype

/-- Members with a key and a weight. -/
def weighted : ElementType :=
  .collection .list (.object [("key", .scalar .string), ("weight", .scalar .int64)])

/-- The same with a note, and with another shape of the key. -/
def noted : ElementType :=
  .collection .list (.object [("note", .scalar .string),
    ("key", .collection .set (.scalar .string))])

/-- Two disagreements are met again, although a name, a kind and a note were
added. -/
theorem mergeAttributes_again_numberedTags :
    (UniqueNames Attribute.ownedTags ∧ UniqueNames Attribute.numberedTags ∧
        weighted.FieldNames List.Nodup ∧ noted.FieldNames List.Nodup) ∧
      attributeMismatches (mergeAttributes Attribute.ownedTags [Attribute.numberedTags])
          [Attribute.numberedTags] =
        [⟨"tags.key", "string", "set"⟩, ⟨"owner.id", "string", "int64"⟩] ∧
      (weighted.merge noted).merge noted = weighted.merge noted ∧
        (weighted.merge noted).mismatches "tags" noted = [⟨"tags.key", "string", "set"⟩] := by
  have howned : UniqueNames Attribute.ownedTags := by decide
  have hnumbered : UniqueNames Attribute.numberedTags := by decide
  have hweighted : weighted.FieldNames List.Nodup := by decide
  have hnoted : noted.FieldNames List.Nodup := by decide
  obtain ⟨⟨-, hmismatches⟩, -, ⟨hmerge, hagain⟩, -⟩ :=
    mergeAttributes_again howned hnumbered hweighted hnoted
  refine ⟨⟨howned, hnumbered, hweighted, hnoted⟩, ?_, hmerge, ?_⟩
  · rw [hmismatches]
    decide +kernel
  · rw [hagain]
    decide +kernel

end ProviderSchema
