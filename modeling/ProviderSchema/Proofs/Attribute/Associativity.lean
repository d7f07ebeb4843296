import ProviderSchema.Proofs.Attribute.Disagreements
import ProviderSchema.Proofs.Attribute.MergeByPath

/-!
# Merges of three lists

Lists of attributes whose shapes do not clash may be merged in any grouping: a
list merged with a second and then with a third one is the list merged with what
the second and the third one make, and no disagreement is met on either way.

That no disagreement is met is `Fragment.Fits`: the fragments are alike, and
their parts at one segment fit.  What fits a merged fragment fits what was merged
into it (`Fits.of_merge`), both together still fit the target
(`Fits.merge_right`), and the order of the merges does not count
(`Fits.merge_assoc`).
-/

namespace ProviderSchema

namespace Fragment

variable {t s r : Fragment}

/-- Fragments that disagree nowhere: they are alike, and their parts at one segment
fit. -/
inductive Fits : Fragment → Fragment → Prop where
  | mk {t s : Fragment} (alike : Alike t s)
      (parts : ∀ segment f g, t.child? segment = some f → s.child? segment = some g → Fits f g) :
      Fits t s

theorem Fits.alike (h : Fits t s) : Alike t s := by
  cases h
  assumption

/-- No disagreement is met exactly between fragments that fit. -/
theorem mismatches_eq_nil_iff_fits (hlevel : t.level = s.level) (hs : s.Unique) (path : String) :
    t.mismatches path s = [] ↔ Fits t s := by
  induction s using inductionOnParts generalizing t path with
  | step s ih =>
    by_cases hshape : t.shapeName = s.shapeName
    · have halike := alike_of_shapeName_eq hlevel hshape
      rw [halike.mismatches_eq_flatMap hs, List.flatMap_eq_nil_iff]
      constructor
      · intro h
        refine .mk halike fun segment f g hf hg => ?_
        have hpart := mem_parts_of_child?_eq_some hg
        have hnone := h _ hpart
        have hlevel' := halike.level_eq_of_child? hf hg
        unfold child? at hf
        rw [partMismatches, hf] at hnone
        exact (ih _ hpart hlevel' (hs.of_mem_parts hpart) _).mp hnone
      · rintro ⟨-, parts⟩ part hpart
        have hg := hs.child?_eq_some hpart
        unfold partMismatches
        cases hf : lookup t.parts part.1 with
        | none => rfl
        | some f =>
          have hlevel' := halike.level_eq_of_child? hf hg
          exact (ih part hpart hlevel' (hs.of_mem_parts hpart) _).mpr (parts part.1 f _ hf hg)
    · rw [mismatches_of_shapeName_ne hlevel hshape]
      exact iff_of_false (List.cons_ne_nil _ _) fun h => hshape h.alike.shapeName_eq

/-! ## What fits -/

/-- What is alike a merged fragment is alike what was merged into it. -/
theorem Alike.of_merge (h : Alike t s) (h' : Alike (t.merge s) r) : Alike s r :=
  alike_of_shapeName_eq
    (h.level_eq.symm.trans ((level_merge t s).symm.trans h'.level_eq))
    (h.shapeName_eq.symm.trans ((shapeName_merge t s).symm.trans h'.shapeName_eq))

/-- What fits a merged fragment fits what was merged into it. -/
theorem Fits.of_merge (h : Fits t s) (h' : Fits (t.merge s) r) (hs : s.Unique) : Fits s r := by
  induction h generalizing r with
  | @mk t s alike parts ih =>
    obtain ⟨alike', parts'⟩ := h'
    refine .mk (alike.of_merge alike') fun segment g k hg hk => ?_
    have hmerged := alike.child?_merge hs segment
    rw [hg] at hmerged
    cases hf : t.child? segment with
    | none =>
      rw [hf] at hmerged
      exact parts' segment g k hmerged hk
    | some f =>
      rw [hf] at hmerged
      have hunique := hs.of_mem_parts (mem_parts_of_child?_eq_some hg)
      exact ih segment f g hf hg (parts' segment _ k hmerged hk) hunique

/-- What is merged fits a target that both fit one after the other. -/
theorem Fits.merge_right (h : Fits t s) (h' : Fits (t.merge s) r) (hs : s.Unique)
    (hr : r.Unique) : Fits t (s.merge r) := by
  have hsr := (h.of_merge h' hs).alike
  induction h generalizing r with
  | @mk t s alike parts ih =>
    obtain ⟨alike', parts'⟩ := h'
    have halike : Alike t (s.merge r) :=
      alike_of_shapeName_eq (alike.level_eq.trans (level_merge s r).symm)
        (alike.shapeName_eq.trans (shapeName_merge s r).symm)
    refine .mk halike fun segment f l hf hl => ?_
    have hmerged := alike.child?_merge hs segment
    rw [hsr.child?_merge hr] at hl
    rw [hf] at hmerged
    cases hg : s.child? segment with
    | none =>
      rw [hg] at hmerged hl
      rw [Option.merge_none_left] at hl
      exact parts' segment f l hmerged hl
    | some g =>
      rw [hg] at hmerged hl
      cases hk : r.child? segment with
      | none =>
        rw [hk] at hl
        obtain rfl := Option.some.inj hl
        exact parts segment f g hf hg
      | some k =>
        rw [hk] at hl
        obtain rfl := Option.some.inj hl
        have hfits := parts' segment _ k hmerged hk
        have hg' := hs.of_mem_parts (mem_parts_of_child?_eq_some hg)
        have hk' := hr.of_mem_parts (mem_parts_of_child?_eq_some hk)
        have hgk := ((parts segment f g hf hg).of_merge hfits hg').alike
        exact ih segment f g hf hg hfits hg' hk' hgk

/-! ## Grouping -/

/-- Lists may be merged in any grouping if their parts at one segment may. -/
theorem mergeAll_assoc {a b c : List Attribute} (ha : ((ofAttributes a).map (·.1)).Nodup)
    (hb : ((ofAttributes b).map (·.1)).Nodup) (hc : ((ofAttributes c).map (·.1)).Nodup)
    (h : ∀ segment f g k, lookup (ofAttributes a) segment = some f →
      lookup (ofAttributes b) segment = some g → lookup (ofAttributes c) segment = some k →
        (f.merge g).merge k = f.merge (g.merge k)) :
    Attribute.mergeAll (Attribute.mergeAll a b) c =
      Attribute.mergeAll a (Attribute.mergeAll b c) := by
  rw [nodup_ofAttributes] at ha hb hc
  simp only [Attribute.mergeAll_eq_mergeByKey]
  refine mergeByKey_assoc Attribute.name_merge ha hb hc fun x hx y hy z hz hxy hyz => ?_
  refine item.inj (h (.named z.name) (.item x) (.item y) (.item z) ?_ ?_ ?_)
  · rw [lookup_ofAttributes_named, ← hyz, ← hxy, find?_key_eq_some ha hx]
    rfl
  · rw [lookup_ofAttributes_named, ← hyz, find?_key_eq_some hb hy]
    rfl
  · rw [lookup_ofAttributes_named, find?_key_eq_some hc hz]
    rfl

theorem mergeFields_assoc {a b c : List (String × ElementType)}
    (ha : ((ofFields a).map (·.1)).Nodup) (hb : ((ofFields b).map (·.1)).Nodup)
    (hc : ((ofFields c).map (·.1)).Nodup)
    (h : ∀ segment f g k, lookup (ofFields a) segment = some f →
      lookup (ofFields b) segment = some g → lookup (ofFields c) segment = some k →
        (f.merge g).merge k = f.merge (g.merge k)) :
    ElementType.mergeFields (ElementType.mergeFields a b) c =
      ElementType.mergeFields a (ElementType.mergeFields b c) := by
  rw [nodup_ofFields] at ha hb hc
  simp only [ElementType.mergeFields_eq_mergeByKey]
  refine @mergeByKey_assoc _ (fun field : String × ElementType => field.1)
    (fun field source => (field.1, field.2.merge source.2)) (fun _ _ => rfl) a b c ha hb hc
    fun x hx y hy z hz hxy hyz => ?_
  refine Prod.ext rfl
    (value.inj (h (.named z.1) (.value x.2) (.value y.2) (.value z.2) ?_ ?_ ?_))
  · rw [lookup_ofFields_named, ← hyz, ← hxy, find?_key_eq_some ha hx]
    rfl
  · rw [lookup_ofFields_named, ← hyz, find?_key_eq_some hb hy]
    rfl
  · rw [lookup_ofFields_named, find?_key_eq_some hc hz]
    rfl

/-- Alike fragments may be merged in any grouping if their parts at one segment
may. -/
theorem Alike.merge_assoc (h : Alike t s) (h' : Alike s r) (ht : t.Unique) (hs : s.Unique)
    (hr : r.Unique)
    (hparts : ∀ segment f g k, t.child? segment = some f → s.child? segment = some g →
      r.child? segment = some k → (f.merge g).merge k = f.merge (g.merge k)) :
    (t.merge s).merge r = t.merge (s.merge r) := by
  have ht := ht.nodup_parts
  have hs := hs.nodup_parts
  have hr := hr.nodup_parts
  cases h with
  | list =>
    cases h'
    exact congrArg Fragment.list (mergeAll_assoc ht hs hr hparts)
  | scalar hkind =>
    cases h' with
    | scalar hkind' =>
      simp only [merge, Attribute.merge, if_pos hkind, if_pos hkind', if_pos (hkind.trans hkind'),
        Attribute.filledFrom_assoc]
  | collection =>
    cases h'
    have hmembers := value.inj (hparts .members _ _ _ rfl rfl rfl)
    simp only [merge, Attribute.merge, if_true, Attribute.filledFrom_assoc, hmembers]
  | nested =>
    cases h'
    have hattributes := mergeAll_assoc ht hs hr hparts
    simp only [merge, Attribute.merge, if_true, Attribute.filledFrom_assoc, hattributes]
  | single =>
    cases h'
    have hattributes := mergeAll_assoc ht hs hr hparts
    simp only [merge, Attribute.merge, Attribute.filledFrom_assoc, hattributes]
  | scalarValue =>
    cases h'
    rfl
  | collectionValue =>
    cases h'
    have hmembers := value.inj (hparts .members _ _ _ rfl rfl rfl)
    simp only [merge, ElementType.merge, if_true, hmembers]
  | object =>
    cases h'
    simp only [merge, ElementType.merge, mergeFields_assoc ht hs hr hparts]

/-- Fragments that fit one after the other may be merged in any grouping. -/
theorem Fits.merge_assoc (h : Fits t s) (h' : Fits (t.merge s) r) (ht : t.Unique)
    (hs : s.Unique) (hr : r.Unique) : (t.merge s).merge r = t.merge (s.merge r) := by
  have hsr := (h.of_merge h' hs).alike
  induction h generalizing r with
  | @mk t s alike parts ih =>
    obtain ⟨-, parts'⟩ := h'
    refine alike.merge_assoc hsr ht hs hr fun segment f g k hf hg hk => ?_
    have hmerged := alike.child?_merge hs segment
    rw [hf, hg] at hmerged
    have hfits := parts' segment _ k hmerged hk
    have hf' := ht.of_mem_parts (mem_parts_of_child?_eq_some hf)
    have hg' := hs.of_mem_parts (mem_parts_of_child?_eq_some hg)
    have hk' := hr.of_mem_parts (mem_parts_of_child?_eq_some hk)
    have hgk := ((parts segment f g hf hg).of_merge hfits hg').alike
    exact ih segment f g hf hg hfits hf' hg' hk' hgk

end Fragment

namespace Attribute

/-- If no disagreement is met while a second and then a third list are merged into a
first one, none is met either while the third one is merged into the second one, and
what they make into the first one; and the result is the same. -/
theorem mergeAttributes_assoc {a b c : List Attribute} (ha : UniqueNames a) (hb : UniqueNames b)
    (hc : UniqueNames c) (h : attributeMismatches a [b] = [])
    (h' : attributeMismatches (mergeAttributes a [b]) [c] = []) :
    attributeMismatches a [mergeAttributes b [c]] = [] ∧ attributeMismatches b [c] = [] ∧
      mergeAttributes (mergeAttributes a [b]) [c] = mergeAttributes a [mergeAttributes b [c]] := by
  have hfits {l l' : List Attribute} (hl' : UniqueNames l') :
      attributeMismatches l [l'] = [] ↔ Fragment.Fits (.list l) (.list l') := by
    have hlevel : Fragment.level (.list l) = Fragment.level (.list l') := rfl
    have hunique : Fragment.Unique (.list l') := hl'
    rw [Fragment.attributeMismatches_singleton,
      Fragment.mismatches_eq_nil_iff_fits hlevel hunique]
  have hunique (l : List Attribute) (hl : UniqueNames l) : Fragment.Unique (.list l) := hl
  have hbc : UniqueNames (mergeAttributes b [c]) :=
    hb.mergeAttributes fun source hsource => List.mem_singleton.mp hsource ▸ hc.each
  have hab : Fragment.Fits (.list a) (.list b) := (hfits hb).mp h
  have habc : Fragment.Fits ((Fragment.list a).merge (.list b)) (.list c) := (hfits hc).mp h'
  refine ⟨(hfits hbc).mpr ?_, (hfits hc).mpr ?_, ?_⟩
  · exact hab.merge_right habc (hunique b hb) (hunique c hc)
  · exact hab.of_merge habc (hunique b hb)
  · exact Fragment.list.inj
      (hab.merge_assoc habc (hunique a ha) (hunique b hb) (hunique c hc))

/-- A book with a title. -/
def titledBook : List Attribute :=
  [.single "book" { computability := .required } [describedText "title" ""]]

/-- A shelf, and a book with pages. -/
def pagedBook : List Attribute :=
  [plainText "shelf", .single "book" { computability := .computed, description := some "A book." }
    [.collection "pages" { computability := .computed } .list
      (.object [("number", .scalar .int64)])]]

/-- A loan, and a book with the texts of pages and a described title. -/
def printedBook : List Attribute :=
  [.single "book" { computability := .computed, description := some "A print." }
      [.collection "pages" { computability := .optional, description := some "The pages." } .list
        (.object [("text", .scalar .string), ("number", .scalar .int64)]),
        describedText "title" "The title."],
    plainText "loan"]

/-- The title is described by the third list and the book by the second one, and the
shelf comes before the loan, whichever are merged first. -/
theorem mergeAttributes_assoc_printedBook :
    (UniqueNames titledBook ∧ UniqueNames pagedBook ∧ UniqueNames printedBook) ∧
      (attributeMismatches titledBook [pagedBook] = [] ∧
        attributeMismatches (mergeAttributes titledBook [pagedBook]) [printedBook] = []) ∧
      mergeAttributes (mergeAttributes titledBook [pagedBook]) [printedBook] =
        mergeAttributes titledBook [mergeAttributes pagedBook [printedBook]] ∧
      (mergeAttributes titledBook [mergeAttributes pagedBook [printedBook]]).map
          (fun a => (a.name, a.traits.description)) =
        [("book", some "A book."), ("shelf", none), ("loan", none)] := by
  have htitled : UniqueNames titledBook := by decide
  have hpaged : UniqueNames pagedBook := by decide
  have hprinted : UniqueNames printedBook := by decide
  have hfirst : attributeMismatches titledBook [pagedBook] = [] := by decide +kernel
  have hsecond : attributeMismatches (mergeAttributes titledBook [pagedBook]) [printedBook] =
      [] := by decide +kernel
  obtain ⟨-, -, hmerged⟩ := mergeAttributes_assoc htitled hpaged hprinted hfirst hsecond
  exact ⟨⟨htitled, hpaged, hprinted⟩, ⟨hfirst, hsecond⟩, hmerged, by decide +kernel⟩

end Attribute

end ProviderSchema
