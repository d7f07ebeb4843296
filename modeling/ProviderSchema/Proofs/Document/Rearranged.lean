import Mathlib.Data.List.Forall2
import Mathlib.Data.List.Nodup
import ProviderSchema.Proofs.Document.Except
import ProviderSchema.Proofs.Document.Table

/-!
# Tables in another order

A table is a list only because its entries are written in some order.
`Table.Rearranged` says that two tables have the same names in different
orders, each name once, and related values; what can be looked up in them is
related then (`Rearranged.rel_get?`), and if the values are the same, one table
is a permutation of the other (`Rearranged.perm`).

`AgreeUpTo` is the relation that goes with it for computations that may fail:
the errors have to be the same.
-/

namespace ProviderSchema

variable {α β γ δ : Type}

/-! ## Tables -/

namespace Table

theorem isSome_get?_iff {t : List (String × α)} {name : String} :
    (get? t name).isSome ↔ name ∈ t.map (·.1) := by
  unfold get?
  rw [Option.isSome_map, List.find?_isSome, List.mem_map]
  simp

/-- A name that is not repeated has the value that is written with it. -/
theorem get?_eq_some_iff {t : List (String × α)} (hdistinct : (t.map (·.1)).Nodup)
    {name : String} {a : α} : get? t name = some a ↔ (name, a) ∈ t := by
  refine ⟨mem_of_get?_eq_some, fun hmem => ?_⟩
  have hsome := isSome_get?_iff.mpr (List.mem_map_of_mem (f := (·.1)) hmem)
  obtain ⟨b, hb⟩ := Option.isSome_iff_exists.mp hsome
  have heq := List.inj_on_of_nodup_map hdistinct (mem_of_get?_eq_some hb) hmem rfl
  rw [hb, (Prod.mk.inj heq).2]

/-- Tables have the same names in different orders, each name once, and related
values. -/
structure Rearranged (R : α → β → Prop) (t : List (String × α)) (t' : List (String × β)) :
    Prop where
  names : (t.map (·.1)).Perm (t'.map (·.1))
  distinct : (t.map (·.1)).Nodup
  values : ∀ name a b, get? t name = some a → get? t' name = some b → R a b

variable {R : α → β → Prop} {t : List (String × α)} {t' : List (String × β)}

theorem Rearranged.distinct_right (h : Rearranged R t t') : (t'.map (·.1)).Nodup :=
  h.names.nodup_iff.mp h.distinct

theorem Rearranged.rel_get? (h : Rearranged R t t') (name : String) :
    Option.Rel R (get? t name) (get? t' name) := by
  have hsome : (get? t name).isSome = (get? t' name).isSome := by
    rw [Bool.eq_iff_iff, isSome_get?_iff, isSome_get?_iff, h.names.mem_iff]
  cases ha : get? t name with
  | none =>
    rw [ha] at hsome
    rw [Option.isNone_iff_eq_none.mp (Option.isSome_eq_false_iff.mp hsome.symm)]
    exact .none
  | some a =>
    rw [ha] at hsome
    obtain ⟨b, hb⟩ := Option.isSome_iff_exists.mp hsome.symm
    rw [hb]
    exact .some (h.values name a b ha hb)

/-- Tables are related if one has related values and is then permuted. -/
theorem rearranged_of_perm {u : List (String × β)}
    (h : List.Forall₂ (fun e e' => e.1 = e'.1 ∧ R e.2 e'.2) t u) (hperm : u.Perm t')
    (hdistinct : (t.map (·.1)).Nodup) : Rearranged R t t' := by
  have hentries : t.map (·.1) = u.map (·.1) ∧
      ∀ name a, (name, a) ∈ t → ∃ b, (name, b) ∈ u ∧ R a b := by
    clear hperm hdistinct
    induction h with
    | nil => exact ⟨rfl, by simp⟩
    | @cons e e' _ _ he _ ih =>
      refine ⟨by rw [List.map_cons, List.map_cons, ih.1, he.1], fun name a hmem => ?_⟩
      rcases List.mem_cons.mp hmem with rfl | hmem
      · exact ⟨e'.2, List.mem_cons.mpr (.inl (Prod.ext he.1 rfl)), he.2⟩
      · obtain ⟨b, hb, hab⟩ := ih.2 name a hmem
        exact ⟨b, List.mem_cons_of_mem _ hb, hab⟩
  obtain ⟨hnames, hvalues⟩ := hentries
  refine ⟨hnames ▸ hperm.map _, hdistinct, fun name a b ha hb => ?_⟩
  obtain ⟨b', hb', hab⟩ := hvalues name a (mem_of_get?_eq_some ha)
  have hmem := hperm.mem_iff.mpr (mem_of_get?_eq_some hb)
  have heq := List.inj_on_of_nodup_map (hnames ▸ hdistinct) hb' hmem rfl
  rw [← (Prod.mk.inj heq).2]
  exact hab

theorem rearranged_nil (R : α → β → Prop) : Rearranged R [] [] :=
  rearranged_of_perm .nil (.refl []) List.nodup_nil

theorem rearranged_singleton (name : String) {a : α} {b : β} (h : R a b) :
    Rearranged R [(name, a)] [(name, b)] := by
  refine rearranged_of_perm ?_ (.refl [(name, b)]) (List.nodup_singleton name)
  exact .cons ⟨rfl, h⟩ .nil

/-- Related values of the same names may be written in any order. -/
theorem rearranged_map {names names' : List String} (h : names.Perm names')
    (hdistinct : names.Nodup) {f : String → α} {g : String → β}
    (hfg : ∀ name, R (f name) (g name)) :
    Rearranged R (names.map fun name => (name, f name))
      (names'.map fun name => (name, g name)) := by
  refine rearranged_of_perm ?_ (h.map _) (by simpa [Function.comp_def] using hdistinct)
  rw [List.forall₂_map_left_iff, List.forall₂_map_right_iff, List.forall₂_same]
  exact fun name _ => ⟨rfl, hfg name⟩

/-- What is done to related values leads to related tables. -/
theorem Rearranged.map {S : γ → δ → Prop} {f : String → α → γ} {g : String → β → δ}
    (h : Rearranged R t t') (hS : ∀ name a b, R a b → S (f name a) (g name b)) :
    Rearranged S (t.map fun (name, a) => (name, f name a))
      (t'.map fun (name, b) => (name, g name b)) := by
  refine ⟨?_, ?_, ?_⟩
  · simpa [Function.comp_def] using h.names
  · simpa [Function.comp_def] using h.distinct
  · intro name c d hc hd
    rw [get?_mapEntries, Option.map_eq_some_iff] at hc hd
    obtain ⟨a, ha, rfl⟩ := hc
    obtain ⟨b, hb, rfl⟩ := hd
    exact hS name a b (h.values name a b ha hb)

/-- What is left of related tables by the names of the entries is related. -/
theorem Rearranged.filter (h : Rearranged R t t') (p : String → Bool) :
    Rearranged R (t.filter fun entry => p entry.1) (t'.filter fun entry => p entry.1) := by
  have hnames {α : Type} (t : List (String × α)) :
      (t.filter fun entry => p entry.1).map (·.1) = (t.map (·.1)).filter p := by
    rw [List.filter_map]
    rfl
  refine ⟨?_, ?_, ?_⟩
  · rw [hnames, hnames]
    exact h.names.filter p
  · rw [hnames]
    exact h.distinct.filter p
  · intro name a b ha hb
    have hp : p name = true := by simpa using (List.mem_filter.mp (mem_of_get?_eq_some ha)).2
    rw [get?_filter hp] at ha hb
    exact h.values name a b ha hb

theorem Rearranged.get?_eq {t t' : List (String × α)} (h : Rearranged (· = ·) t t')
    (name : String) : get? t name = get? t' name := by
  have hrel := h.rel_get? name
  generalize get? t name = a at hrel ⊢
  generalize get? t' name = b at hrel ⊢
  cases hrel with
  | none => rfl
  | some heq => rw [heq]

/-- Tables with the same values are permutations of each other. -/
theorem Rearranged.perm {t t' : List (String × α)} (h : Rearranged (· = ·) t t') : t.Perm t' := by
  refine (List.perm_ext_iff_of_nodup h.distinct.of_map h.distinct_right.of_map).mpr ?_
  rintro ⟨name, a⟩
  rw [← get?_eq_some_iff h.distinct, ← get?_eq_some_iff h.distinct_right, h.get?_eq]

end Table

/-! ## Values that may be missing -/

theorem rel_map {R : α → β → Prop} {S : γ → δ → Prop} {f : α → γ} {g : β → δ}
    (hS : ∀ a b, R a b → S (f a) (g b)) {a : Option α} {b : Option β} (h : Option.Rel R a b) :
    Option.Rel S (a.map f) (b.map g) := by
  cases h with
  | none => exact .none
  | some h => exact .some (hS _ _ h)

theorem rel_map_iff {R : γ → δ → Prop} {f : α → γ} {g : β → δ} {a : Option α} {b : Option β} :
    Option.Rel R (a.map f) (b.map g) ↔ Option.Rel (fun x y => R (f x) (g y)) a b := by
  cases a <;> cases b <;> simp

theorem rel_eq_iff {a b : Option α} : Option.Rel (· = ·) a b ↔ a = b := by
  cases a <;> cases b <;> simp

theorem rel_getD {R : α → β → Prop} {a : Option α} {b : Option β} (h : Option.Rel R a b) {c : α}
    {d : β} (hcd : R c d) : R (a.getD c) (b.getD d) := by
  cases h with
  | none => exact hcd
  | some h => exact h

/-! ## Computations that may fail -/

/-- Computations fail with the same error, or both succeed with related
results. -/
inductive AgreeUpTo {ε : Type} (R : α → β → Prop) : Except ε α → Except ε β → Prop where
  | error (e : ε) : AgreeUpTo R (.error e) (.error e)
  | ok {a : α} {b : β} (h : R a b) : AgreeUpTo R (.ok a) (.ok b)

/-- Results that are made of related results are the same. -/
theorem mapM_eq_of_forall₂ {ε : Type} {R : α → β → Prop} {f : α → Except ε γ}
    {g : β → Except ε γ} (hfg : ∀ a b, R a b → f a = g b) {l : List α} {l' : List β}
    (h : List.Forall₂ R l l') : l.mapM f = l'.mapM g := by
  induction h with
  | nil => rfl
  | cons hab _ ih => rw [List.mapM_cons, List.mapM_cons, ih, hfg _ _ hab]

end ProviderSchema
