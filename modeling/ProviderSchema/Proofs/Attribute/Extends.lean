import ProviderSchema.Proofs.Attribute.StandsAt

/-!
# Attributes with others added at the end

`Extends P target attributes` says that the attributes are those of the target,
in the same places and of the same computability, with others added at the end
of the list, and that this is so at every level below an attribute of the
target.  All that is added satisfies `P`, and it never has the name of an
attribute that was there.

This is what a merge makes of its target (`Extends.mergeAll`), and changes of
descriptions do not touch it (`Extends.updateTraits`).  Both replace attributes
one by one, which is what `Extends.replace` is about.

What stands at a path then stands there in the target too, with the same
computability, or it was added (`Extends.exists_of_standsAt`).
-/

namespace ProviderSchema.Attribute

/-- What became of an attribute that is kept. -/
structure Keeps (a a' : Attribute) : Prop where
  name : a'.name = a.name
  variant : a'.variant = a.variant
  computability : a'.traits.computability = a.traits.computability

theorem Keeps.refl (a : Attribute) : Keeps a a := ⟨rfl, rfl, rfl⟩

theorem Keeps.trans {a b c : Attribute} (h : Keeps a b) (h' : Keeps b c) : Keeps a c :=
  ⟨h'.name.trans h.name, h'.variant.trans h.variant, h'.computability.trans h.computability⟩

/-- What is kept has nested attributes if it had any. -/
theorem Keeps.exists_children {a a' : Attribute} (h : Keeps a a') {l : List Attribute}
    (hl : a'.children? = some l) : ∃ l₀, a.children? = some l₀ := by
  rw [← Option.isSome_iff_exists, ← isSome_children?_eq h.variant, hl]
  rfl

theorem keeps_merge (a s : Attribute) : Keeps a (a.merge s) := by
  refine ⟨name_merge a s, variant_merge a s, ?_⟩
  by_cases h : a.variant = s.variant
  · rw [traits_merge h, filledFrom_eq]
  · rw [merge_of_variant_ne h]

theorem map_eq_of_keeps {β : Type} {g : Attribute → β} (hg : ∀ a a', Keeps a a' → g a' = g a)
    {l l' : List Attribute} (h : List.Forall₂ Keeps l l') : l'.map g = l.map g := by
  induction h with
  | nil => rfl
  | cons hkeeps _ ih => rw [List.map_cons, List.map_cons, ih, hg _ _ hkeeps]

/-- The attributes of a target, with others added at the end, at every level. -/
inductive Extends (P : Attribute → Prop) : List Attribute → List Attribute → Prop where
  | added {attributes : List Attribute} (h : ∀ a ∈ attributes, P a) : Extends P [] attributes
  | kept {a a' : Attribute} {rest rest' : List Attribute} (keeps : Keeps a a')
      (fresh : a.name ∉ (rest'.map name).drop rest.length)
      (nested : ∀ l l', a.children? = some l → a'.children? = some l' → Extends P l l')
      (later : Extends P rest rest') : Extends P (a :: rest) (a' :: rest')

variable {P : Attribute → Prop} {target attributes : List Attribute}

namespace Extends

theorem length_le (h : Extends P target attributes) : target.length ≤ attributes.length := by
  induction h with
  | added => exact Nat.zero_le _
  | kept _ _ _ _ _ ih =>
    rw [List.length_cons, List.length_cons]
    omega

theorem refl_of_forall (h : ∀ a ∈ target, ∀ l, a.children? = some l → Extends P l l) :
    Extends P target target := by
  induction target with
  | nil => exact .added (by simp)
  | cons a rest ih =>
    rw [List.forall_mem_cons] at h
    have hfresh : a.name ∉ (rest.map name).drop rest.length := by
      rw [List.drop_eq_nil_of_le (Nat.le_of_eq (List.length_map name))]
      exact List.not_mem_nil
    refine .kept (.refl a) hfresh ?_ (ih h.2)
    intro l l' hl hl'
    rw [hl] at hl'
    cases hl'
    exact h.1 l hl

/-- A list extends itself. -/
theorem refl (target : List Attribute) : Extends P target target := by
  have hnested : ∀ a : Attribute, ∀ l, a.children? = some l → Extends P l l := by
    intro a
    induction a using inductionOnChildren with
    | step a ih => exact fun l hl => refl_of_forall (ih l hl)
  exact refl_of_forall fun a _ => hnested a

/-- An attribute was kept, with what is below it, or it was added. -/
theorem exists_of_mem (h : Extends P target attributes) {a : Attribute} (ha : a ∈ attributes) :
    (∃ t ∈ target, Keeps t a ∧
        ∀ l₀ l, t.children? = some l₀ → a.children? = some l → Extends P l₀ l) ∨ P a := by
  induction h with
  | added h => exact .inr (h a ha)
  | @kept t t' rest rest' keeps _ nested _ _ ih =>
    rcases List.mem_cons.mp ha with rfl | ha
    · exact .inl ⟨t, List.mem_cons_self, keeps, nested⟩
    · rcases ih ha with ⟨u, hu, hkept⟩ | hP
      · exact .inl ⟨u, List.mem_cons_of_mem _ hu, hkept⟩
      · exact .inr hP

/-- The names of the target come first, and what is added has others. -/
theorem exists_append (h : Extends P target attributes) :
    ∃ own new, attributes = own ++ new ∧ List.Forall₂ Keeps target own ∧
      ∀ a ∈ new, P a ∧ a.name ∉ target.map name := by
  induction h with
  | @added attributes h => exact ⟨[], attributes, rfl, .nil, fun a ha => ⟨h a ha, by simp⟩⟩
  | @kept a a' rest rest' keeps fresh _ _ _ ih =>
    obtain ⟨own, new, rfl, hown, hnew⟩ := ih
    refine ⟨a' :: own, new, rfl, .cons keeps hown, ?_⟩
    intro b hb
    have hother : b.name ≠ a.name := by
      intro heq
      have hlength := hown.length_eq
      have hmem : b.name ∈ ((own ++ new).map name).drop rest.length := by
        rw [hlength, ← List.map_drop, List.drop_left]
        exact List.mem_map_of_mem hb
      exact fresh (heq ▸ hmem)
    rw [List.map_cons, List.mem_cons, not_or]
    exact ⟨(hnew b hb).1, hother, (hnew b hb).2⟩

/-- One attribute may be replaced, if it is kept and what is below it still
extends what it did. -/
theorem replace {before after : List Attribute} {a a' : Attribute}
    (h : Extends P target (before ++ a :: after)) (hkeeps : Keeps a a') (hP : P a → P a')
    (hnested : ∀ l₀ l l', a.children? = some l → a'.children? = some l' → Extends P l₀ l →
      Extends P l₀ l') : Extends P target (before ++ a' :: after) := by
  induction target generalizing before with
  | nil =>
    cases h with
    | added h =>
      rw [List.forall_mem_append, List.forall_mem_cons] at h
      refine .added ?_
      rw [List.forall_mem_append, List.forall_mem_cons]
      exact ⟨h.1, hP h.2.1, h.2.2⟩
  | cons t rest ih =>
    cases before with
    | nil =>
      cases h with
      | kept keeps fresh nested later =>
        refine .kept (keeps.trans hkeeps) fresh ?_ later
        intro l₀ l' hl₀ hl'
        obtain ⟨l, hl⟩ := hkeeps.exists_children hl'
        exact hnested l₀ l l' hl hl' (nested l₀ l hl₀ hl)
    | cons b before =>
      cases h with
      | kept keeps fresh nested later =>
        refine .kept keeps ?_ nested (ih later)
        show t.name ∉ ((before ++ a' :: after).map name).drop rest.length
        have hnames : (before ++ a' :: after).map name = (before ++ a :: after).map name := by
          simp [hkeeps.name]
        rwa [hnames]

/-- One attribute may be added, under a new name. -/
theorem append (h : Extends P target attributes) {a : Attribute} (hP : P a)
    (hnew : a.name ∉ attributes.map name) : Extends P target (attributes ++ [a]) := by
  induction h with
  | added h =>
    refine .added ?_
    rw [List.forall_mem_append, List.forall_mem_singleton]
    exact ⟨h, hP⟩
  | @kept t t' rest rest' keeps fresh nested later _ ih =>
    rw [List.map_cons, List.mem_cons, not_or, keeps.name] at hnew
    refine .kept keeps ?_ nested (ih hnew.2)
    have hlength : rest.length ≤ (rest'.map name).length := by
      rw [List.length_map]
      exact later.length_le
    show t.name ∉ ((rest' ++ [a]).map name).drop rest.length
    rw [List.map_append, List.drop_append_of_le_length hlength, List.mem_append, not_or]
    exact ⟨fresh, by simpa using Ne.symm hnew.1⟩

/-! ## Merges -/

theorem mergeAll_of_forall {source : List Attribute}
    (hstep : ∀ s ∈ source, ∀ {target attributes : List Attribute}, Extends P target attributes →
      Extends P target (upsert (·.name = s.name) (fun a => merge a s) s attributes))
    (h : Extends P target attributes) :
    Extends P target (Attribute.mergeAll attributes source) := by
  induction source generalizing attributes with
  | nil =>
    rw [Attribute.mergeAll]
    exact h
  | cons s rest ih =>
    rw [List.forall_mem_cons] at hstep
    rw [Attribute.mergeAll]
    exact ih hstep.2 (hstep.1 h)

variable {Q : Attribute → Prop}

/-- Merging one attribute of a source fills an attribute that is there, or adds
a new one. -/
theorem upsert_merge (hQ : ∀ a s : Attribute, a.variant = s.variant → Q a → Q s → Q (a.merge s))
    {s : Attribute} (hs : s.Each Q) (h : Extends (Each Q) target attributes) :
    Extends (Each Q) target
      (upsert (·.name = s.name) (fun a => merge a s) s attributes) := by
  induction s using inductionOnChildren generalizing target attributes with
  | step s ih =>
    rcases upsert_inversion (fun a : Attribute => decide (a.name = s.name))
        (fun a => merge a s) s attributes with
      ⟨before, a, after, rfl, -, hupsert⟩ | ⟨hnone, hupsert⟩
    · rw [hupsert]
      refine h.replace (keeps_merge a s) (fun ha => ha.merge hQ hs) ?_
      intro l₀ l l' hl hl' hextends
      by_cases hvariant : a.variant = s.variant
      · rw [children?_merge hvariant, hl] at hl'
        cases hchildren : s.children? with
        | none =>
          rw [hchildren, Option.merge_none_right] at hl'
          cases hl'
          exact hextends
        | some children =>
          rw [hchildren] at hl'
          cases hl'
          exact hextends.mergeAll_of_forall fun c hc _ _ =>
            ih children hchildren c hc (hs.children hchildren c hc)
      · rw [merge_of_variant_ne hvariant, hl] at hl'
        cases hl'
        exact hextends
    · rw [hupsert]
      refine h.append hs ?_
      intro hmem
      obtain ⟨a, ha, hname⟩ := List.mem_map.mp hmem
      simpa [hname] using hnone a ha

/-- A merge extends its target by what the source has. -/
theorem mergeAll (hQ : ∀ a s : Attribute, a.variant = s.variant → Q a → Q s → Q (a.merge s))
    {source : List Attribute} (hsource : ∀ s ∈ source, s.Each Q) :
    Extends (Each Q) target (Attribute.mergeAll target source) :=
  mergeAll_of_forall (fun s hs _ _ => upsert_merge hQ (hsource s hs)) (refl target)

/-! ## Changes of traits -/

theorem replaceFirst {f : Attribute → Attribute} (hkeeps : ∀ a, Keeps a (f a))
    (hP : ∀ a, P a → P (f a))
    (hnested : ∀ a l₀ l l', a.children? = some l → (f a).children? = some l' → Extends P l₀ l →
      Extends P l₀ l') (name : String) (h : Extends P target attributes) :
    Extends P target (Attribute.replaceFirst name f attributes) := by
  rcases replaceFirst_inversion name f attributes with ⟨before, a, after, rfl, hreplaced⟩ | hsame
  · rw [hreplaced]
    exact h.replace (hkeeps a) (hP a) (hnested a)
  · rw [hsame]
    exact h

end Extends

variable {Q : Attribute → Prop} {f : Traits → Traits}

theorem keeps_within (hf : ∀ t, (f t).computability = t.computability) (path : List String)
    (a : Attribute) : Keeps a (within f path a) := by
  refine ⟨name_within f path a, ?_, ?_⟩
  · cases path <;> cases a <;> rfl
  · cases path with
    | nil =>
      rw [within, traits_mapTraits, hf]
    | cons name path => cases a <;> rfl

/-- What is below an attribute extends what it did if traits are changed at a
path below it. -/
theorem Extends.children_within (hQ : IgnoresChildren Q)
    (hkept : ∀ a : Attribute, Q a → Q (a.mapTraits f))
    (hf : ∀ t, (f t).computability = t.computability) (path : List String) (a : Attribute)
    (l₀ l l' : List Attribute) (hl : a.children? = some l)
    (hl' : (within f path a).children? = some l') (h : Extends (Each Q) l₀ l) :
    Extends (Each Q) l₀ l' := by
  induction path generalizing a l₀ l l' with
  | nil =>
    rw [within, children?_mapTraits, hl] at hl'
    cases hl'
    exact h
  | cons name path ih =>
    rw [within, mapChildren, hl] at hl'
    dsimp only at hl'
    rw [children?_withChildren hl] at hl'
    cases hl'
    exact h.replaceFirst (keeps_within hf path) (fun a ha => ha.within hQ hkept path) ih name

/-- Changes of traits do not touch what attributes extend, if the
computability stays as it is. -/
theorem Extends.updateTraits (hQ : IgnoresChildren Q)
    (hkept : ∀ a : Attribute, Q a → Q (a.mapTraits f))
    (hf : ∀ t, (f t).computability = t.computability) (path : List String)
    (h : Extends (Each Q) target attributes) :
    Extends (Each Q) target (updateTraits f path attributes) := by
  cases path with
  | nil => exact h
  | cons name path =>
    exact h.replaceFirst (keeps_within hf path) (fun a ha => ha.within hQ hkept path)
      (Extends.children_within hQ hkept hf path) name

/-! ## Paths -/

/-- What stands at a path stood there in the target, with the same
computability, or it was added. -/
theorem Extends.exists_of_standsAt (h : Extends (Each Q) target attributes) {path : List String}
    {a : Attribute} (ha : StandsAt attributes path a) :
    (∃ b, StandsAt target path b ∧ b.traits.computability = a.traits.computability) ∨ Q a := by
  induction ha generalizing target with
  | here hmem =>
    rcases h.exists_of_mem hmem with ⟨t, ht, hkeeps, -⟩ | hadded
    · rw [hkeeps.name]
      exact .inl ⟨t, .here ht, hkeeps.computability.symm⟩
    · exact .inr hadded.own
  | inside hmem hchildren hrest ih =>
    rcases h.exists_of_mem hmem with ⟨t, ht, hkeeps, hnested⟩ | hadded
    · obtain ⟨l₀, hl₀⟩ := hkeeps.exists_children hchildren
      rcases ih (hnested l₀ _ hl₀ hchildren) with ⟨b, hb, hcomputability⟩ | hQ
      · rw [hkeeps.name]
        exact .inl ⟨b, .inside ht hl₀ hb, hcomputability⟩
      · exact .inr hQ
    · exact .inr (Each.of_standsAt (hadded.children hchildren) hrest).own

end ProviderSchema.Attribute
