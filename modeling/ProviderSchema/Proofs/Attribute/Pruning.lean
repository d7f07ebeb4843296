import ProviderSchema.Proofs.Attribute.UpdateOrder
import ProviderSchema.Text.Join

/-!
# Leaving attributes out

`pruned drop` leaves out of a tree the attributes at the paths that `drop`
tells, with all that is below them.  A path is the list of the names that lead
to an attribute.

All attributes of one name in one list are at one path, so they are left out
together.  Hence it makes no difference whether attributes are left out before
or after lists are merged (`pruned_mergeAttributes`), and before or after
traits are changed (`pruned_updateTraits`).  No list has to have unique names
for that.

Paths are written as texts in two ways.  `dottedPath` joins the names by dots;
`pathOf` lets a path grow name by name, and puts no dot where nothing is
written yet.  They agree unless the first name is empty
(`pathOf_cons_of_ne_empty`).
-/

namespace ProviderSchema.Attribute

mutual

/-- The attribute at a path, less what is left out below it. -/
def prunedBelow (drop : List String → Bool) (path : List String) : Attribute → Attribute
  | .scalar name traits shape => .scalar name traits shape
  | .collection name traits kind element => .collection name traits kind element
  | .nested name traits kind attributes =>
    .nested name traits kind (pruned drop path attributes)
  | .single name traits attributes => .single name traits (pruned drop path attributes)

/-- The attributes below a path, less what is left out of them. -/
def pruned (drop : List String → Bool) (path : List String) : List Attribute → List Attribute
  | [] => []
  | a :: rest =>
    if drop (path ++ [a.name]) then pruned drop path rest
    else prunedBelow drop (path ++ [a.name]) a :: pruned drop path rest

end

variable {drop : List String → Bool} {path : List String}

theorem pruned_eq_map_filter (attributes : List Attribute) :
    pruned drop path attributes =
      (attributes.filter fun a => !drop (path ++ [a.name])).map fun a =>
        prunedBelow drop (path ++ [a.name]) a := by
  induction attributes with
  | nil => rw [pruned, List.filter_nil, List.map_nil]
  | cons a rest ih =>
    rw [pruned, ih]
    cases h : drop (path ++ [a.name]) <;> simp [h]

theorem pruned_cons_of_drop {a : Attribute} (h : drop (path ++ [a.name]) = true)
    (rest : List Attribute) : pruned drop path (a :: rest) = pruned drop path rest := by
  rw [pruned, if_pos h]

theorem pruned_cons_of_keep {a : Attribute} (h : drop (path ++ [a.name]) = false)
    (rest : List Attribute) :
    pruned drop path (a :: rest) =
      prunedBelow drop (path ++ [a.name]) a :: pruned drop path rest := by
  rw [pruned, if_neg (by rw [h]; exact Bool.noConfusion)]

theorem prunedBelow_eq_mapChildren (a : Attribute) :
    prunedBelow drop path a = a.mapChildren (pruned drop path) := by
  cases a <;> rw [prunedBelow] <;> rfl

theorem children?_prunedBelow (a : Attribute) :
    (prunedBelow drop path a).children? = a.children?.map (pruned drop path) := by
  cases a <;> rfl

@[simp] theorem name_prunedBelow (a : Attribute) : (prunedBelow drop path a).name = a.name := by
  rw [prunedBelow_eq_mapChildren, name_mapChildren]

/-- Nothing is left at a path that is left out. -/
theorem drop_of_mem_pruned {attributes : List Attribute} {a : Attribute}
    (h : a ∈ pruned drop path attributes) : drop (path ++ [a.name]) = false := by
  rw [pruned_eq_map_filter] at h
  obtain ⟨b, hb, rfl⟩ := List.mem_map.mp h
  rw [name_prunedBelow]
  simpa using List.of_mem_filter hb

theorem mem_pruned_of_keep {attributes : List Attribute} {a : Attribute} (h : a ∈ attributes)
    (hkeep : drop (path ++ [a.name]) = false) :
    prunedBelow drop (path ++ [a.name]) a ∈ pruned drop path attributes := by
  rw [pruned_eq_map_filter]
  refine List.mem_map_of_mem (List.mem_filter.mpr ⟨h, ?_⟩)
  rw [hkeep, Bool.not_false]

/-! ## Merges -/

/-- What is left of merged lists is what is left of the lists, merged, if so
it is of merged attributes. -/
theorem pruned_mergeAll_of_forall {target source : List Attribute}
    (h : ∀ a : Attribute, ∀ s ∈ source, a.name = s.name →
      prunedBelow drop (path ++ [a.name]) (a.merge s) =
        (prunedBelow drop (path ++ [a.name]) a).merge (prunedBelow drop (path ++ [s.name]) s)) :
    pruned drop path (mergeAll target source) =
      mergeAll (pruned drop path target) (pruned drop path source) := by
  simp only [pruned_eq_map_filter, mergeAll_eq_mergeByKey]
  rw [filter_mergeByKey name_merge fun name => !drop (path ++ [name])]
  refine map_mergeByKey (P := fun _ => True) (fun a => name_prunedBelow a)
    (fun _ _ _ _ _ => trivial) ?_ (fun _ _ => trivial) fun _ _ => trivial
  intro a s hs hname _ _
  rw [name_merge]
  exact h a s (List.mem_of_mem_filter hs) hname

theorem prunedBelow_merge (a s : Attribute) :
    prunedBelow drop path (a.merge s) =
      (prunedBelow drop path a).merge (prunedBelow drop path s) := by
  induction s using inductionOnChildren generalizing a path with
  | step s ih =>
    have hchildren {l l' : List Attribute} (hl' : s.children? = some l') :
        pruned drop path (mergeAll l l') = mergeAll (pruned drop path l) (pruned drop path l') := by
      apply pruned_mergeAll_of_forall
      intro a s hs hname
      rw [ih l' hl' s hs a, hname]
    cases s with
    | scalar name traits shape =>
      cases a <;> simp only [merge, prunedBelow]
      split <;> rw [prunedBelow]
    | collection name traits kind element =>
      cases a <;> simp only [merge, prunedBelow]
      split <;> rw [prunedBelow]
    | nested name traits kind attributes =>
      cases a <;> simp only [merge, prunedBelow]
      split
      · rw [prunedBelow, hchildren rfl]
      · rw [prunedBelow]
    | single name traits attributes =>
      cases a <;> simp only [merge, prunedBelow]
      rw [hchildren rfl]

theorem pruned_mergeAll (target source : List Attribute) :
    pruned drop path (mergeAll target source) =
      mergeAll (pruned drop path target) (pruned drop path source) := by
  apply pruned_mergeAll_of_forall
  intro a s _ hname
  rw [prunedBelow_merge, hname]

/-- Attributes may be left out before or after lists are merged. -/
theorem pruned_mergeAttributes (target : List Attribute) (sources : List (List Attribute)) :
    pruned drop path (mergeAttributes target sources) =
      mergeAttributes (pruned drop path target) (sources.map (pruned drop path)) := by
  unfold mergeAttributes
  induction sources generalizing target with
  | nil => rfl
  | cons source rest ih => rw [List.foldl_cons, ih, pruned_mergeAll, List.map_cons, List.foldl_cons]

/-! ## Changes of traits -/

theorem prunedBelow_mapTraits (f : Traits → Traits) (a : Attribute) :
    prunedBelow drop path (a.mapTraits f) = (prunedBelow drop path a).mapTraits f := by
  rw [prunedBelow_eq_mapChildren, prunedBelow_eq_mapChildren, mapTraits_mapChildren]

/-- The first attribute of a name may be replaced before or after others are
left out: if it is left out itself, there is none of its name any more. -/
theorem pruned_replaceFirst {name : String} {f : Attribute → Attribute}
    (hname : ∀ a, (f a).name = a.name)
    (hf : ∀ a, prunedBelow drop (path ++ [name]) (f a) = f (prunedBelow drop (path ++ [name]) a))
    (attributes : List Attribute) :
    pruned drop path (replaceFirst name f attributes) =
      replaceFirst name f (pruned drop path attributes) := by
  cases hdrop : drop (path ++ [name]) with
  | true =>
    have hnone : ∀ a ∈ pruned drop path attributes, a.name ≠ name := by
      intro a ha hname
      have hkept := drop_of_mem_pruned ha
      rw [hname, hdrop] at hkept
      cases hkept
    rw [replaceFirst_of_forall_ne hnone]
    clear hnone
    induction attributes with
    | nil => rw [replaceFirst]
    | cons a rest ih =>
      rw [replaceFirst]
      split
      · rename_i ha
        rw [pruned_cons_of_drop (by rw [hname, ha, hdrop]), pruned_cons_of_drop (by rw [ha, hdrop])]
      · rw [pruned, pruned, ih]
  | false =>
    induction attributes with
    | nil => rw [replaceFirst, pruned, replaceFirst]
    | cons a rest ih =>
      rw [replaceFirst]
      split
      · rename_i ha
        rw [pruned_cons_of_keep (by rw [hname, ha, hdrop]), pruned_cons_of_keep (by rw [ha, hdrop]),
          replaceFirst, name_prunedBelow, if_pos ha, hname, ha, hf]
      · rename_i ha
        cases hkept : drop (path ++ [a.name]) with
        | true => rw [pruned_cons_of_drop hkept, pruned_cons_of_drop hkept, ih]
        | false =>
          rw [pruned_cons_of_keep hkept, pruned_cons_of_keep hkept, replaceFirst, name_prunedBelow,
            if_neg ha, ih]

theorem prunedBelow_within (f : Traits → Traits) (names : List String) (a : Attribute) :
    prunedBelow drop path (within f names a) = within f names (prunedBelow drop path a) := by
  induction names generalizing path a with
  | nil => exact prunedBelow_mapTraits f a
  | cons name names ih =>
    rw [within, within, prunedBelow_eq_mapChildren, prunedBelow_eq_mapChildren,
      mapChildren_mapChildren, mapChildren_mapChildren]
    congr 1
    funext attributes
    exact pruned_replaceFirst (name_within f names) ih attributes

/-- Attributes may be left out before or after the traits of others are
changed. -/
theorem pruned_updateTraits (f : Traits → Traits) (names : List String)
    (attributes : List Attribute) :
    pruned drop path (updateTraits f names attributes) =
      updateTraits f names (pruned drop path attributes) := by
  cases names with
  | nil => rfl
  | cons name names =>
    exact pruned_replaceFirst (name_within f names) (prunedBelow_within f names) attributes

/-! ## Other ways to tell what is left out -/

variable {drop' : List String → Bool}

/-- Where the same is left out of a list itself, the same is left if it is
left below what is kept. -/
theorem pruned_eq_pruned_iff {attributes : List Attribute}
    (h : ∀ a ∈ attributes, drop (path ++ [a.name]) = drop' (path ++ [a.name])) :
    pruned drop path attributes = pruned drop' path attributes ↔
      ∀ a ∈ attributes, drop (path ++ [a.name]) = false →
        prunedBelow drop (path ++ [a.name]) a = prunedBelow drop' (path ++ [a.name]) a := by
  have hfilter : (attributes.filter fun a => !drop' (path ++ [a.name])) =
      attributes.filter fun a => !drop (path ++ [a.name]) :=
    List.filter_congr fun a ha => by rw [h a ha]
  rw [pruned_eq_map_filter, pruned_eq_map_filter, hfilter, List.map_inj_left]
  simp only [List.mem_filter, Bool.not_eq_true', and_imp]

/-- What is kept in one way is kept in all ways that leave the same. -/
theorem keep_of_pruned_eq {attributes : List Attribute}
    (h : pruned drop path attributes = pruned drop' path attributes) {a : Attribute}
    (ha : a ∈ attributes) (hkeep : drop' (path ++ [a.name]) = false) :
    drop (path ++ [a.name]) = false := by
  have hmem := mem_pruned_of_keep ha hkeep
  rw [← h] at hmem
  simpa using drop_of_mem_pruned hmem

/-- Only the paths through the attribute count for what is left below it. -/
theorem prunedBelow_congr (h : ∀ names, drop (path ++ names) = drop' (path ++ names))
    (a : Attribute) : prunedBelow drop path a = prunedBelow drop' path a := by
  induction a using inductionOnChildren generalizing path with
  | step a ih =>
    rw [prunedBelow_eq_mapChildren, prunedBelow_eq_mapChildren]
    unfold mapChildren
    cases hchildren : a.children? with
    | none => rfl
    | some children =>
      dsimp only
      congr 1
      refine (pruned_eq_pruned_iff fun c _ => h [c.name]).mpr fun c hc _ => ?_
      refine ih children hchildren c hc fun names => ?_
      rw [List.append_assoc, h]

/-! ## Paths as texts -/

/-- The names of a path, joined by dots. -/
def dottedPath (names : List String) : String := Text.joinWith "." names

/-- A path as it grows by one name after the other. -/
def pathOf (names : List String) : String := names.foldl below ""

theorem pathOf_concat (names : List String) (name : String) :
    pathOf (names ++ [name]) = below (pathOf names) name := by
  simp [pathOf]

@[simp] theorem pathOf_singleton (name : String) : pathOf [name] = name := rfl

theorem foldl_below_of_ne_empty {path : String} (h : path ≠ "") (names : List String) :
    names.foldl below path = dottedPath (path :: names) := by
  unfold dottedPath
  induction names generalizing path with
  | nil => rfl
  | cons name rest ih =>
    have hbelow : below path name = path ++ "." ++ name := if_neg h
    have hne : path ++ "." ++ name ≠ "" := by simp [h]
    rw [List.foldl_cons, hbelow, ih hne]
    cases rest with
    | nil => rfl
    | cons next rest => simp [Text.joinWith, String.append_assoc]

/-- The two ways to write a path agree unless it starts with an empty name. -/
theorem pathOf_cons_of_ne_empty {name : String} (h : name ≠ "") (names : List String) :
    pathOf (name :: names) = dottedPath (name :: names) :=
  foldl_below_of_ne_empty h names

/-- Whether a path is written like one of the ignored texts. -/
def isIgnored (write : List String → String) (ignores names : List String) : Bool :=
  ignores.contains (write names)

theorem isIgnored_iff {write : List String → String} {ignores names : List String} :
    isIgnored write ignores names = true ↔ write names ∈ ignores :=
  List.contains_iff_mem

/-- The attributes, less those that are ignored. -/
def withoutIgnored (write : List String → String) (ignores : List String)
    (attributes : List Attribute) : List Attribute :=
  pruned (isIgnored write ignores) [] attributes

/-- Dots everywhere lead to the same if and only if nothing is below an
attribute of the empty name. -/
theorem withoutIgnored_pathOf_eq_dottedPath_iff {attributes : List Attribute}
    (hnested : ∀ a ∈ attributes, ∀ l, a.children? = some l → ∀ c ∈ l, c.name ≠ "") :
    (∀ ignores, withoutIgnored pathOf ignores attributes =
        withoutIgnored dottedPath ignores attributes) ↔
      ∀ a ∈ attributes, a.name = "" → ∀ l, a.children? = some l → l = [] := by
  unfold withoutIgnored
  have hsame (ignores : List String) : ∀ a ∈ attributes,
      isIgnored pathOf ignores ([] ++ [a.name]) = isIgnored dottedPath ignores ([] ++ [a.name]) :=
    fun _ _ => rfl
  constructor
  · intro h a ha hname l hl
    by_contra hne
    -- The name of a nested attribute leads to it, unless there is a dot in front.
    obtain ⟨c, hc⟩ := List.exists_mem_of_ne_nil l hne
    have hcname := hnested a ha l hl c hc
    have hkeep : isIgnored pathOf [c.name] ([] ++ [a.name]) = false := by
      simpa [isIgnored, hname] using Ne.symm hcname
    have hbelow := (pruned_eq_pruned_iff (hsame [c.name])).mp (h [c.name]) a ha hkeep
    have hleft := congrArg children? hbelow
    rw [children?_prunedBelow, children?_prunedBelow, hl] at hleft
    have hdotted : isIgnored dottedPath [c.name] ([] ++ [a.name] ++ [c.name]) = false := by
      rw [isIgnored, List.contains_cons, List.contains_nil, Bool.or_false, beq_eq_false_iff_ne,
        hname]
      intro heq
      have hlength := congrArg String.length heq
      simp [dottedPath, Text.joinWith] at hlength
    have hignored := keep_of_pruned_eq (Option.some.inj hleft) hc hdotted
    simp [isIgnored, pathOf, below, hname] at hignored
  · intro h ignores
    refine (pruned_eq_pruned_iff (hsame ignores)).mpr fun a ha _ => ?_
    by_cases hname : a.name = ""
    · rw [prunedBelow_eq_mapChildren, prunedBelow_eq_mapChildren]
      unfold mapChildren
      cases hchildren : a.children? with
      | none => rfl
      | some l =>
        rw [h a ha hname l hchildren]
        rfl
    · refine prunedBelow_congr (fun names => ?_) a
      unfold isIgnored
      rw [List.nil_append, List.singleton_append, pathOf_cons_of_ne_empty hname]

end ProviderSchema.Attribute
