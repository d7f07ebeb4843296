import Mathlib.Data.List.Nodup
import ProviderSchema.Document.Table

/-!
# Merging lists by key

`mergeByKey` merges a list into another one, entry by entry: an entry is
combined with the first one that has its key, or added at the end.  The
merges of attributes and of the fields of an object are both of this kind.

There are five groups of lemmas.

* The keys.  `map_key_mergeByKey` and `map_key_foldl_mergeByKey` say which
  keys there are after a merge, and in which order: those of all lists, each
  where it occurs first.
* The entries.  `find?_mergeByKey` gives the entry of a key after one merge,
  and `find?_foldl_mergeByKey` after many: the entries that the lists have
  for the key, combined from left to right.
* Merges of three lists.  Keys and entries together tell what a merge is, so
  merges may be grouped in any way if combinations may (`mergeByKey_assoc`).
* What holds of all entries (`forall_mem_mergeByKey`), and what adds nothing
  (`mergeByKey_eq_target`).
* Merges of images and of parts.  A function that respects keys and
  combinations turns a merge into a merge (`map_mergeByKey`), and so does
  leaving out keys (`filter_mergeByKey`).

Keys that occur twice in the list that is merged into are harmless for the
second, the fourth and the fifth group.  They are harmless in the list that is
merged for all groups but the second and the third one.
-/

namespace ProviderSchema

/-! ## Lists without repetitions -/

theorem eraseDups_of_nodup {α : Type} [BEq α] [LawfulBEq α] {l : List α} (h : l.Nodup) :
    l.eraseDups = l := by
  induction l with
  | nil => rfl
  | cons a l ih =>
    rw [List.nodup_cons] at h
    have hfilter : l.filter (fun b => !b == a) = l := by
      rw [List.filter_eq_self]
      intro b hb
      have hne : b ≠ a := fun hba => h.1 (hba ▸ hb)
      simpa using hne
    rw [List.eraseDups_cons, hfilter, ih h.2]

theorem nodup_eraseDups {α : Type} [BEq α] [LawfulBEq α] (l : List α) : l.eraseDups.Nodup := by
  match l with
  | [] => exact List.nodup_nil
  | a :: l =>
    have hshorter : (l.filter fun b => !b == a).length ≤ l.length := List.length_filter_le _ l
    rw [List.eraseDups_cons, List.nodup_cons]
    exact ⟨by simp, nodup_eraseDups _⟩
termination_by l.length
decreasing_by simp only [List.length_cons]; omega

/-- A key that has occurred before may be left out. -/
theorem eraseDups_append_cons_of_mem {l rest : List String} {a : String} (h : a ∈ l) :
    (l ++ a :: rest).eraseDups = (l ++ rest).eraseDups := by
  have hremove : (a :: rest).removeAll l = rest.removeAll l := by
    unfold List.removeAll
    rw [List.filter_cons_of_neg]
    simpa using h
  rw [List.eraseDups_append, List.eraseDups_append, hremove]

/-- Of keys that do not occur twice, each leads to its entry. -/
theorem find?_key_eq_some {α κ : Type} [DecidableEq κ] {key : α → κ} {l : List α}
    (h : (l.map key).Nodup) {a : α} (ha : a ∈ l) : l.find? (fun b => key b = key a) = some a := by
  have hsome : (l.find? fun b => key b = key a).isSome := by
    rw [List.find?_isSome]
    exact ⟨a, ha, decide_eq_true rfl⟩
  obtain ⟨b, hb⟩ := Option.isSome_iff_exists.mp hsome
  have hkey : key b = key a := by simpa using List.find?_some hb
  rw [hb, List.inj_on_of_nodup_map h (List.mem_of_find?_eq_some hb) ha hkey]

/-! ## One entry -/

section Upsert

variable {α κ : Type} [DecidableEq κ] {key : α → κ} {f : α → α} {fresh : α}

theorem map_key_upsert (hf : ∀ a, key (f a) = key a) (l : List α) :
    (upsert (fun a => key a = key fresh) f fresh l).map key =
      if key fresh ∈ l.map key then l.map key else l.map key ++ [key fresh] := by
  induction l with
  | nil => simp [upsert]
  | cons a rest ih =>
    by_cases h : key a = key fresh
    · simp [upsert, h, hf]
    · rw [upsert, if_neg (by simpa using h), List.map_cons, ih]
      by_cases hrest : key fresh ∈ rest.map key
      · simp [hrest]
      · simp [hrest, Ne.symm h]

theorem find?_upsert (hf : ∀ a, key (f a) = key a) (name : κ) (l : List α) :
    (upsert (fun a => key a = key fresh) f fresh l).find? (fun a => key a = name) =
      if key fresh = name then
        some ((l.find? fun a => key a = name).elim fresh f)
      else l.find? fun a => key a = name := by
  induction l with
  | nil => by_cases h : key fresh = name <;> simp [upsert, h]
  | cons a rest ih =>
    by_cases h : key a = key fresh
    · by_cases hname : key fresh = name <;> simp [upsert, h, hf, hname]
    · rw [upsert, if_neg (by simpa using h), List.find?_cons, ih, List.find?_cons]
      by_cases hname : key fresh = name
      · have hne : key a ≠ name := fun ha => h (ha.trans hname.symm)
        simp [hname, hne]
      · simp [hname]

theorem forall_mem_upsert {fits : α → Bool} {P : α → Prop} {l : List α}
    (hl : ∀ a ∈ l, P a) (hf : ∀ a ∈ l, P a → P (f a)) (hfresh : P fresh) :
    ∀ a ∈ upsert fits f fresh l, P a := by
  induction l with
  | nil => simpa [upsert] using hfresh
  | cons a rest ih =>
    rw [List.forall_mem_cons] at hl
    rw [upsert]
    split
    · rw [List.forall_mem_cons]
      exact ⟨hf a List.mem_cons_self hl.1, hl.2⟩
    · rw [List.forall_mem_cons]
      exact ⟨hl.1, ih hl.2 fun b hb => hf b (List.mem_cons_of_mem _ hb)⟩

theorem map_upsert {β : Type} {fits : α → Bool} {fits' : β → Bool} {g : α → β} {f' : β → β}
    {l : List α} (hfits : ∀ a ∈ l, fits' (g a) = fits a)
    (hf : ∀ a ∈ l, fits a = true → g (f a) = f' (g a)) :
    (upsert fits f fresh l).map g = upsert fits' f' (g fresh) (l.map g) := by
  induction l with
  | nil => rfl
  | cons a rest ih =>
    rw [List.forall_mem_cons] at hfits hf
    rw [upsert, List.map_cons, upsert, hfits.1]
    split
    · rename_i h
      rw [List.map_cons, hf.1 h]
    · rw [List.map_cons, ih hfits.2 hf.2]

/-- The first entry that fits is replaced, or there is none and the list gets a
new one. -/
theorem upsert_inversion (fits : α → Bool) (f : α → α) (fresh : α) (l : List α) :
    (∃ before a after, l = before ++ a :: after ∧ fits a = true ∧
        upsert fits f fresh l = before ++ f a :: after) ∨
      (∀ a ∈ l, fits a = false) ∧ upsert fits f fresh l = l ++ [fresh] := by
  induction l with
  | nil => exact .inr ⟨by simp, rfl⟩
  | cons a rest ih =>
    rw [upsert]
    by_cases h : fits a = true
    · rw [if_pos h]
      exact .inl ⟨[], a, rest, rfl, h, rfl⟩
    · rw [if_neg h]
      rcases ih with ⟨before, b, after, rfl, hb, hupsert⟩ | ⟨hnone, hupsert⟩
      · refine .inl ⟨a :: before, b, after, rfl, hb, ?_⟩
        rw [hupsert, List.cons_append]
      · rw [Bool.not_eq_true] at h
        refine .inr ⟨List.forall_mem_cons.mpr ⟨h, hnone⟩, ?_⟩
        rw [hupsert, List.cons_append]

/-- An entry that changes nothing may be left out. -/
theorem upsert_eq_self {fits : α → Bool} {l : List α} {a : α} (ha : l.find? fits = some a)
    (hf : f a = a) : upsert fits f fresh l = l := by
  induction l with
  | nil => cases ha
  | cons b rest ih =>
    rw [upsert]
    by_cases hfits : fits b = true
    · rw [List.find?_cons_of_pos hfits] at ha
      cases ha
      rw [if_pos hfits, hf]
    · rw [List.find?_cons_of_neg hfits] at ha
      rw [if_neg hfits, ih ha]

/-- An entry of a key that is left out leaves no trace. -/
theorem filter_upsert_of_eq_false {kept : κ → Bool} (hf : ∀ a, key (f a) = key a)
    (h : kept (key fresh) = false) (l : List α) :
    (upsert (fun a => key a = key fresh) f fresh l).filter (fun a => kept (key a)) =
      l.filter fun a => kept (key a) := by
  induction l with
  | nil => simp [upsert, h]
  | cons a rest ih =>
    by_cases hkey : key a = key fresh
    · simp [upsert, hkey, hf, h]
    · simp [upsert, hkey, List.filter_cons, ih]

theorem filter_upsert_of_eq_true {kept : κ → Bool} (hf : ∀ a, key (f a) = key a)
    (h : kept (key fresh) = true) (l : List α) :
    (upsert (fun a => key a = key fresh) f fresh l).filter (fun a => kept (key a)) =
      upsert (fun a => key a = key fresh) f fresh (l.filter fun a => kept (key a)) := by
  induction l with
  | nil => simp [upsert, h]
  | cons a rest ih =>
    by_cases hkey : key a = key fresh
    · simp [upsert, hkey, hf, h]
    · by_cases hkept : kept (key a) = true
      · simp [upsert, hkey, hkept, ih]
      · simp [upsert, hkey, hkept, ih]

end Upsert

/-! ## All entries -/

/-- A list with the entries of another one merged into it. -/
def mergeByKey {α : Type} (key : α → String) (combine : α → α → α) (target : List α) :
    List α → List α
  | [] => target
  | source :: rest =>
    mergeByKey key combine
      (upsert (fun a => key a = key source) (fun a => combine a source) source target) rest

/-- The members of a list, combined from left to right. -/
def combineAll? {α : Type} (combine : α → α → α) : List α → Option α
  | [] => none
  | first :: later => some (later.foldl combine first)

section Merge

variable {α : Type} {key : α → String} {combine : α → α → α}

/-! ### The keys -/

theorem eraseDups_map_key_mergeByKey (hkey : ∀ a s, key (combine a s) = key a)
    (target sources : List α) (others : List String) :
    ((mergeByKey key combine target sources).map key ++ others).eraseDups =
      (target.map key ++ (sources.map key ++ others)).eraseDups := by
  induction sources generalizing target with
  | nil => rfl
  | cons source rest ih =>
    rw [mergeByKey, ih, map_key_upsert fun a => hkey a source]
    split
    · rename_i hmem
      rw [List.map_cons, List.cons_append, eraseDups_append_cons_of_mem hmem]
    · simp

/-- A merge has the keys of both lists. -/
theorem mem_map_key_mergeByKey (hkey : ∀ a s, key (combine a s) = key a)
    {target sources : List α} {name : String} :
    name ∈ (mergeByKey key combine target sources).map key ↔
      name ∈ target.map key ∨ name ∈ sources.map key := by
  have hdups := eraseDups_map_key_mergeByKey hkey target sources []
  rw [List.append_nil, List.append_nil] at hdups
  rw [← List.mem_eraseDups, hdups, List.mem_eraseDups, List.mem_append]

theorem nodup_map_key_mergeByKey (hkey : ∀ a s, key (combine a s) = key a)
    {target : List α} (sources : List α) (h : (target.map key).Nodup) :
    ((mergeByKey key combine target sources).map key).Nodup := by
  induction sources generalizing target with
  | nil => exact h
  | cons source rest ih =>
    apply ih
    rw [map_key_upsert fun a => hkey a source]
    split
    · exact h
    · rename_i hnew
      rw [List.nodup_append]
      refine ⟨h, List.nodup_singleton _, ?_⟩
      intro a ha b hb hab
      rw [List.mem_singleton] at hb
      exact hnew (hb ▸ hab ▸ ha)

/-- The keys of two lists that are merged, each where it occurs first. -/
theorem map_key_mergeByKey (hkey : ∀ a s, key (combine a s) = key a)
    {target : List α} (sources : List α) (h : (target.map key).Nodup) :
    (mergeByKey key combine target sources).map key =
      (target.map key ++ sources.map key).eraseDups := by
  have hdups := eraseDups_map_key_mergeByKey hkey target sources []
  rw [List.append_nil, List.append_nil] at hdups
  rw [← hdups, eraseDups_of_nodup (nodup_map_key_mergeByKey hkey sources h)]

/-- After the keys of the target come those that only the source has. -/
theorem map_key_mergeByKey_of_nodup (hkey : ∀ a s, key (combine a s) = key a)
    {target sources : List α} (htarget : (target.map key).Nodup)
    (hsources : (sources.map key).Nodup) :
    (mergeByKey key combine target sources).map key =
      target.map key ++ (sources.map key).filter fun name => name ∉ target.map key := by
  have hremove : (sources.map key).removeAll (target.map key) =
      (sources.map key).filter fun name => name ∉ target.map key := by
    simp [List.removeAll, -List.mem_map]
  rw [map_key_mergeByKey hkey sources htarget, List.eraseDups_append, hremove,
    eraseDups_of_nodup htarget, eraseDups_of_nodup (hsources.filter _)]

/-- The keys of lists that are merged one after the other, each where it
occurs first. -/
theorem map_key_foldl_mergeByKey (hkey : ∀ a s, key (combine a s) = key a)
    {target : List α} (sources : List (List α)) (h : (target.map key).Nodup) :
    (sources.foldl (mergeByKey key combine) target).map key =
      ((target :: sources).flatMap fun l => l.map key).eraseDups := by
  induction sources generalizing target with
  | nil => simp [eraseDups_of_nodup h]
  | cons source rest ih =>
    rw [List.foldl_cons, ih (nodup_map_key_mergeByKey hkey source h), List.flatMap_cons,
      eraseDups_map_key_mergeByKey hkey, List.flatMap_cons, List.flatMap_cons]

/-- A merge adds keys at the end. -/
theorem map_key_prefix_mergeByKey (hkey : ∀ a s, key (combine a s) = key a)
    (target sources : List α) :
    target.map key <+: (mergeByKey key combine target sources).map key := by
  induction sources generalizing target with
  | nil => exact List.prefix_rfl
  | cons source rest ih =>
    refine List.IsPrefix.trans ?_ (ih _)
    rw [map_key_upsert fun a => hkey a source]
    split
    · exact List.prefix_rfl
    · exact List.prefix_append _ _

/-! ### The entries -/

/-- The entry of a key after a merge. -/
theorem find?_mergeByKey (hkey : ∀ a s, key (combine a s) = key a)
    (target : List α) {sources : List α} (h : (sources.map key).Nodup) (name : String) :
    (mergeByKey key combine target sources).find? (fun a => key a = name) =
      Option.merge combine (target.find? fun a => key a = name)
        (sources.find? fun a => key a = name) := by
  induction sources generalizing target with
  | nil => simp [mergeByKey]
  | cons source rest ih =>
    rw [List.map_cons, List.nodup_cons] at h
    rw [mergeByKey, ih _ h.2, find?_upsert (fun a => hkey a source), List.find?_cons]
    by_cases hname : key source = name
    · have hrest : rest.find? (fun a => key a = name) = none := by
        rw [List.find?_eq_none]
        intro a ha hkeya
        rw [decide_eq_true_eq] at hkeya
        exact h.1 (List.mem_map.mpr ⟨a, ha, hkeya.trans hname.symm⟩)
      rw [hrest]
      cases target.find? (fun a => key a = name) <;> simp [hname]
    · simp [hname]

/-- The entry of a key after lists are merged one after the other: those that
the lists have for it, combined from left to right. -/
theorem find?_foldl_mergeByKey (hkey : ∀ a s, key (combine a s) = key a)
    (target : List α) {sources : List (List α)}
    (h : ∀ source ∈ sources, (source.map key).Nodup) (name : String) :
    (sources.foldl (mergeByKey key combine) target).find? (fun a => key a = name) =
      combineAll? combine
        ((target :: sources).filterMap fun l => l.find? fun a => key a = name) := by
  unfold combineAll?
  induction sources generalizing target with
  | nil => cases hfind : target.find? (fun a => key a = name) <;> simp [hfind]
  | cons source rest ih =>
    rw [List.forall_mem_cons] at h
    rw [List.foldl_cons, ih _ h.2, List.filterMap_cons, find?_mergeByKey hkey target h.1]
    cases htarget : target.find? (fun a => key a = name) <;>
      cases hsource : source.find? (fun a => key a = name) <;> simp [htarget, hsource]

/-! ### Merges of three lists -/

/-- A list with unique keys is told by its keys and by the entry of each. -/
theorem filterMap_find?_map_key {l : List α} (h : (l.map key).Nodup) :
    (l.map key).filterMap (fun name => l.find? fun a => key a = name) = l := by
  have hfind : ∀ a ∈ l, ((fun name => l.find? fun a => key a = name) ∘ key) a = some a :=
    fun a ha => find?_key_eq_some h ha
  rw [List.filterMap_map, List.filterMap_congr hfind, List.filterMap_some]

theorem eq_of_map_key_eq_of_find?_eq {l l' : List α} (h : (l.map key).Nodup)
    (hkeys : l.map key = l'.map key)
    (hfind : ∀ name, l.find? (fun a => key a = name) = l'.find? fun a => key a = name) :
    l = l' := by
  calc l = (l.map key).filterMap (fun name => l.find? fun a => key a = name) :=
        (filterMap_find?_map_key h).symm
    _ = (l'.map key).filterMap (fun name => l'.find? fun a => key a = name) := by
        rw [hkeys]
        exact List.filterMap_congr fun name _ => hfind name
    _ = l' := filterMap_find?_map_key (hkeys ▸ h)

/-- It does not matter in which order three lists with unique keys are merged, if
it does not matter for their entries. -/
theorem mergeByKey_assoc (hkey : ∀ a s, key (combine a s) = key a) {a b c : List α}
    (ha : (a.map key).Nodup) (hb : (b.map key).Nodup) (hc : (c.map key).Nodup)
    (h : ∀ x ∈ a, ∀ y ∈ b, ∀ z ∈ c, key x = key y → key y = key z →
      combine (combine x y) z = combine x (combine y z)) :
    mergeByKey key combine (mergeByKey key combine a b) c =
      mergeByKey key combine a (mergeByKey key combine b c) := by
  have hab := nodup_map_key_mergeByKey hkey b ha
  have hbc := nodup_map_key_mergeByKey hkey c hb
  have hkeys : (mergeByKey key combine (mergeByKey key combine a b) c).map key =
      (mergeByKey key combine a (mergeByKey key combine b c)).map key := by
    rw [map_key_mergeByKey_of_nodup hkey hab hc, map_key_mergeByKey_of_nodup hkey ha hb,
      map_key_mergeByKey_of_nodup hkey ha hbc, map_key_mergeByKey_of_nodup hkey hb hc,
      List.filter_append, List.append_assoc, List.filter_filter]
    refine congrArg _ (congrArg _ (List.filter_congr fun name _ => ?_))
    by_cases hname : name ∈ a.map key <;> simp [hname, -List.mem_map]
  refine eq_of_map_key_eq_of_find?_eq (nodup_map_key_mergeByKey hkey c hab) hkeys fun name => ?_
  rw [find?_mergeByKey hkey _ hc, find?_mergeByKey hkey _ hb, find?_mergeByKey hkey _ hbc,
    find?_mergeByKey hkey _ hc]
  cases hx : a.find? (fun x => key x = name) with
  | none => simp
  | some x =>
    cases hy : b.find? (fun x => key x = name) with
    | none => simp
    | some y =>
      cases hz : c.find? (fun x => key x = name) with
      | none => simp
      | some z =>
        have hxname : key x = name := by simpa using List.find?_some hx
        have hyname : key y = name := by simpa using List.find?_some hy
        have hzname : key z = name := by simpa using List.find?_some hz
        have hentry := h x (List.mem_of_find?_eq_some hx) y (List.mem_of_find?_eq_some hy) z
          (List.mem_of_find?_eq_some hz) (hxname.trans hyname.symm) (hyname.trans hzname.symm)
        exact congrArg some hentry

/-! ### What holds of all entries -/

theorem forall_mem_mergeByKey {P : α → Prop} {target sources : List α}
    (hcombine : ∀ a, ∀ s ∈ sources, P a → P s → P (combine a s))
    (htarget : ∀ a ∈ target, P a) (hsources : ∀ s ∈ sources, P s) :
    ∀ a ∈ mergeByKey key combine target sources, P a := by
  induction sources generalizing target with
  | nil => exact htarget
  | cons source rest ih =>
    rw [List.forall_mem_cons] at hsources
    have hstep : ∀ a ∈ upsert (fun a => key a = key source) (fun a => combine a source)
        source target, P a :=
      forall_mem_upsert htarget
        (fun a _ ha => hcombine a source List.mem_cons_self ha hsources.1) hsources.1
    exact ih (fun a s hs => hcombine a s (List.mem_cons_of_mem _ hs)) hstep hsources.2

/-- Entries that change nothing in those that they are combined with add
nothing. -/
theorem mergeByKey_eq_target {target sources : List α}
    (h : ∀ s ∈ sources, ∃ a, target.find? (fun a => key a = key s) = some a ∧ combine a s = a) :
    mergeByKey key combine target sources = target := by
  induction sources with
  | nil => rfl
  | cons source rest ih =>
    rw [List.forall_mem_cons] at h
    obtain ⟨⟨a, ha, hcombine⟩, hrest⟩ := h
    rw [mergeByKey, upsert_eq_self ha hcombine, ih hrest]

/-! ### Merges of images and of parts -/

/-- The image of a merge is the merge of the images, if the image of what two
entries of one key are combined into is what their images are combined into.
That has to be known of entries of which `P` holds only. -/
theorem map_mergeByKey {β : Type} {key' : β → String} {combine' : β → β → β} {f : α → β}
    {P : α → Prop} {target sources : List α} (hkey : ∀ a, key' (f a) = key a)
    (hP : ∀ a, ∀ s ∈ sources, P a → P s → P (combine a s))
    (hf : ∀ a, ∀ s ∈ sources, key a = key s → P a → P s → f (combine a s) = combine' (f a) (f s))
    (htarget : ∀ a ∈ target, P a) (hsources : ∀ s ∈ sources, P s) :
    (mergeByKey key combine target sources).map f =
      mergeByKey key' combine' (target.map f) (sources.map f) := by
  induction sources generalizing target with
  | nil => rfl
  | cons source rest ih =>
    rw [List.forall_mem_cons] at hsources
    have hstep : (upsert (fun a => key a = key source) (fun a => combine a source) source
        target).map f =
          upsert (fun b => key' b = key' (f source)) (fun b => combine' b (f source)) (f source)
            (target.map f) := by
      apply map_upsert
      · intro a _
        rw [hkey, hkey]
      · intro a ha hfits
        exact hf a source List.mem_cons_self (by simpa using hfits) (htarget a ha) hsources.1
    rw [mergeByKey, List.map_cons, mergeByKey, ← hstep]
    refine ih (fun a s hs => hP a s (List.mem_cons_of_mem _ hs))
      (fun a s hs => hf a s (List.mem_cons_of_mem _ hs)) ?_ hsources.2
    exact forall_mem_upsert htarget
      (fun a _ ha => hP a source List.mem_cons_self ha hsources.1) hsources.1

/-- The keys of a merge are the merge of the keys. -/
theorem map_key_mergeByKey_eq_mergeByKey (hkey : ∀ a s, key (combine a s) = key a)
    (target sources : List α) :
    (mergeByKey key combine target sources).map key =
      mergeByKey id (fun a _ => a) (target.map key) (sources.map key) :=
  map_mergeByKey (fun _ => rfl) (fun _ _ _ _ _ => trivial) (fun a s _ _ _ _ => hkey a s)
    (P := fun _ => True) (fun _ _ => trivial) fun _ _ => trivial

/-- What a merge has under some keys is the merge of what the lists have under
them. -/
theorem filter_mergeByKey (hkey : ∀ a s, key (combine a s) = key a) (kept : String → Bool)
    (target sources : List α) :
    (mergeByKey key combine target sources).filter (fun a => kept (key a)) =
      mergeByKey key combine (target.filter fun a => kept (key a))
        (sources.filter fun a => kept (key a)) := by
  induction sources generalizing target with
  | nil => rfl
  | cons source rest ih =>
    rw [mergeByKey, ih]
    by_cases h : kept (key source) = true
    · rw [filter_upsert_of_eq_true (fun a => hkey a source) h, List.filter_cons, if_pos h,
        mergeByKey]
    · rw [List.filter_cons, if_neg h]
      rw [Bool.not_eq_true] at h
      rw [filter_upsert_of_eq_false (fun a => hkey a source) h]

end Merge

end ProviderSchema
