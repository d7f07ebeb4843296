import Mathlib.Data.List.Forall2
import Mathlib.Data.List.Nodup
import Mathlib.Data.Prod.Lex
import Mathlib.Data.String.Basic
import ProviderSchema.Node.Basic
import ProviderSchema.Proofs.Document.Table

/-!
# Arranged properties

`arrange` sorts properties by identifier and then by name, and keeps the first
one of every identifier.  The order is that of pairs (`Property.key`), so the
properties of a table are sorted by `sortProperties`
(`pairwise_key_sortProperties`), and what `arrange` keeps of them is strictly
ascending by identifier (`pairwise_name_arrange`).  It keeps a property for the identifier
of every name (`mem_map_name_arrange_iff`), the one with the least name
(`original_le_of_mem_arrange`).
-/

namespace ProviderSchema

/-- What properties are sorted by. -/
def Property.key (p : Property) : String ×ₗ String := toLex (p.name, p.original)

theorem Property.precedes_iff {p q : Property} : p.precedes q = true ↔ p.key < q.key := by
  unfold precedes key
  rw [Prod.Lex.toLex_lt_toLex]
  simp

theorem Property.name_le_of_key_le {p q : Property} (h : p.key ≤ q.key) : p.name ≤ q.name := by
  unfold key at h
  rw [Prod.Lex.toLex_le_toLex] at h
  rcases h with h | h
  · exact h.le
  · exact h.1.le

section Arrange

variable {α : Type}

/-! ## Sorting -/

theorem perm_insertProperty (p : Property) (a : α) (l : List (Property × α)) :
    (insertProperty p a l).Perm ((p, a) :: l) := by
  induction l with
  | nil => exact .refl _
  | cons entry rest ih =>
    obtain ⟨q, b⟩ := entry
    rw [insertProperty]
    split
    · exact .refl _
    · exact (ih.cons (q, b)).trans (.swap (p, a) (q, b) rest)

/-- Sorted properties stay sorted when one more is inserted. -/
theorem pairwise_key_insertProperty (p : Property) (a : α) {l : List (Property × α)}
    (h : l.Pairwise fun x y => x.1.key ≤ y.1.key) :
    (insertProperty p a l).Pairwise fun x y => x.1.key ≤ y.1.key := by
  induction l with
  | nil => exact List.pairwise_singleton _ _
  | cons entry rest ih =>
    obtain ⟨q, b⟩ := entry
    rw [List.pairwise_cons] at h
    rw [insertProperty]
    split
    · rename_i hprecedes
      rw [Property.precedes_iff] at hprecedes
      refine .cons ?_ (.cons h.1 h.2)
      intro y hy
      rcases List.mem_cons.mp hy with rfl | hy
      · exact hprecedes.le
      · exact hprecedes.le.trans (h.1 y hy)
    · rename_i hprecedes
      rw [Property.precedes_iff, not_lt] at hprecedes
      refine .cons ?_ (ih h.2)
      intro y hy
      rcases List.mem_cons.mp ((perm_insertProperty p a rest).mem_iff.mp hy) with rfl | hy
      · exact hprecedes
      · exact h.1 y hy

theorem pairwise_key_sortProperties (table : List (String × α)) :
    (sortProperties table).Pairwise fun x y => x.1.key ≤ y.1.key := by
  induction table with
  | nil => exact .nil
  | cons entry rest ih => exact pairwise_key_insertProperty _ entry.2 ih

/-- Sorting only changes the order of the properties. -/
theorem perm_sortProperties (table : List (String × α)) :
    (sortProperties table).Perm
      (table.map fun entry => (⟨Text.identifier entry.1, entry.1⟩, entry.2)) := by
  induction table with
  | nil => exact .refl _
  | cons entry rest ih => exact (perm_insertProperty _ _ _).trans (ih.cons _)

/-! ## One property for every identifier -/

theorem distinctFrom_sublist (taken : Option String) (l : List (Property × α)) :
    (distinctFrom taken l).Sublist l := by
  induction l generalizing taken with
  | nil => exact .refl _
  | cons entry rest ih =>
    obtain ⟨p, a⟩ := entry
    rw [distinctFrom]
    split
    · exact (ih taken).cons _
    · exact (ih (some p.name)).cons_cons _

/-- What is kept of sorted properties comes after what is taken. -/
theorem lt_name_distinctFrom {taken : String} {l : List (Property × α)}
    (h : l.Pairwise fun x y => x.1.name ≤ y.1.name) (htaken : ∀ x ∈ l, taken ≤ x.1.name) :
    ∀ x ∈ distinctFrom (some taken) l, taken < x.1.name := by
  induction l with
  | nil => simp [distinctFrom]
  | cons entry rest ih =>
    obtain ⟨p, a⟩ := entry
    rw [List.pairwise_cons] at h
    rw [List.forall_mem_cons] at htaken
    rw [distinctFrom]
    split
    · exact ih h.2 htaken.2
    · rename_i hne
      have hlt : taken < p.name := lt_of_le_of_ne htaken.1 fun heq => hne (congrArg some heq)
      intro x hx
      rcases List.mem_cons.mp hx with rfl | hx
      · exact hlt
      · exact lt_of_lt_of_le hlt (h.1 x ((distinctFrom_sublist _ rest).subset hx))

/-- What is kept of sorted properties ascends strictly. -/
theorem pairwise_name_distinctFrom (taken : Option String) {l : List (Property × α)}
    (h : l.Pairwise fun x y => x.1.name ≤ y.1.name) :
    (distinctFrom taken l).Pairwise fun x y => x.1.name < y.1.name := by
  induction l generalizing taken with
  | nil => exact .nil
  | cons entry rest ih =>
    obtain ⟨p, a⟩ := entry
    rw [List.pairwise_cons] at h
    rw [distinctFrom]
    split
    · exact ih taken h.2
    · exact .cons (lt_name_distinctFrom h.2 h.1) (ih (some p.name) h.2)

/-- Arranged properties ascend strictly by identifier. -/
theorem pairwise_name_arrange (table : List (String × α)) :
    ((arrange table).map (·.1.name)).Pairwise (· < ·) := by
  have hsorted := (pairwise_key_sortProperties table).imp Property.name_le_of_key_le
  rw [List.pairwise_map]
  exact pairwise_name_distinctFrom none hsorted

/-- No identifier is used twice. -/
theorem nodup_name_arrange (table : List (String × α)) :
    ((arrange table).map (·.1.name)).Nodup :=
  (pairwise_name_arrange table).imp ne_of_lt

/-- An arranged property is one of the table, under its identifier. -/
theorem mem_of_mem_arrange {table : List (String × α)} {p : Property} {a : α}
    (h : (p, a) ∈ arrange table) :
    p.name = Text.identifier p.original ∧ (p.original, a) ∈ table := by
  have hsorted := (distinctFrom_sublist none _).subset h
  rw [(perm_sortProperties table).mem_iff, List.mem_map] at hsorted
  obtain ⟨entry, hmem, heq⟩ := hsorted
  cases heq
  exact ⟨rfl, hmem⟩

/-- Of the sorted properties with the name of one that is kept, none comes before it. -/
theorem key_le_of_mem_distinctFrom {taken : Option String} {l : List (Property × α)}
    (h : l.Pairwise fun x y => x.1.key ≤ y.1.key) {x : Property × α}
    (hx : x ∈ distinctFrom taken l) {y : Property × α} (hy : y ∈ l) (hname : y.1.name = x.1.name) :
    x.1.key ≤ y.1.key := by
  induction l generalizing taken with
  | nil => cases hy
  | cons entry rest ih =>
    obtain ⟨p, a⟩ := entry
    obtain ⟨hfirst, hrest⟩ := List.pairwise_cons.mp h
    have hlater (hx : x ∈ distinctFrom (some p.name) rest) : x.1.key ≤ y.1.key := by
      have hlt := lt_name_distinctFrom (hrest.imp Property.name_le_of_key_le)
        (fun z hz => Property.name_le_of_key_le (hfirst z hz)) x hx
      rcases List.mem_cons.mp hy with rfl | hy
      · exact absurd hname hlt.ne
      · exact ih hrest hx hy
    rw [distinctFrom] at hx
    split at hx
    · rename_i htaken
      exact hlater (htaken ▸ hx)
    · rcases List.mem_cons.mp hx with rfl | hx
      · rcases List.mem_cons.mp hy with rfl | hy
        · exact le_rfl
        · exact hfirst y hy
      · exact hlater hx

/-- Every name is kept that is not taken. -/
theorem mem_map_name_distinctFrom (taken : Option String) {l : List (Property × α)}
    {x : Property × α} (hx : x ∈ l) :
    taken = some x.1.name ∨ x.1.name ∈ (distinctFrom taken l).map (·.1.name) := by
  induction l generalizing taken with
  | nil => cases hx
  | cons entry rest ih =>
    obtain ⟨p, a⟩ := entry
    rw [distinctFrom]
    split
    · rename_i htaken
      rcases List.mem_cons.mp hx with rfl | hx
      · exact .inl htaken
      · exact ih taken hx
    · right
      rw [List.map_cons, List.mem_cons]
      rcases List.mem_cons.mp hx with rfl | hx
      · exact .inl rfl
      · exact (ih (some p.name) hx).imp (fun h => (Option.some.inj h).symm) id

/-- The arranged properties are named by the identifiers of all names of the table. -/
theorem mem_map_name_arrange_iff {table : List (String × α)} {name : String} :
    name ∈ (arrange table).map (·.1.name) ↔
      name ∈ table.map fun entry => Text.identifier entry.1 := by
  constructor
  · intro h
    obtain ⟨⟨p, a⟩, hmem, rfl⟩ := List.mem_map.mp h
    obtain ⟨hname, hentry⟩ := mem_of_mem_arrange hmem
    exact List.mem_map.mpr ⟨_, hentry, hname.symm⟩
  · intro h
    obtain ⟨⟨original, a⟩, hmem, rfl⟩ := List.mem_map.mp h
    have hsorted := (perm_sortProperties table).mem_iff.mpr (List.mem_map.mpr ⟨_, hmem, rfl⟩)
    exact (mem_map_name_distinctFrom none hsorted).resolve_left (by simp)

/-- An arranged property has the least of the names with its identifier. -/
theorem original_le_of_mem_arrange {table : List (String × α)} {x : Property × α}
    (hx : x ∈ arrange table) {original : String} {a : α} (h : (original, a) ∈ table)
    (hname : Text.identifier original = x.1.name) : x.1.original ≤ original := by
  have hsorted := (perm_sortProperties table).mem_iff.mpr (List.mem_map.mpr ⟨_, h, rfl⟩)
  have hkey := key_le_of_mem_distinctFrom (pairwise_key_sortProperties table) hx hsorted hname
  unfold Property.key at hkey
  rw [Prod.Lex.toLex_le_toLex] at hkey
  rcases hkey with hlt | ⟨-, hle⟩
  · exact absurd hname hlt.ne'
  · exact hle

/-! ## Values, and the order of the table -/

theorem insertProperty_map {β : Type} (f : α → β) (p : Property) (a : α)
    (l : List (Property × α)) :
    insertProperty p (f a) (l.map fun (q, b) => (q, f b)) =
      (insertProperty p a l).map fun (q, b) => (q, f b) := by
  induction l with
  | nil => rfl
  | cons entry rest ih =>
    obtain ⟨q, b⟩ := entry
    simp only [List.map_cons, insertProperty, ih]
    split <;> rfl

theorem distinctFrom_map {β : Type} (f : α → β) (taken : Option String)
    (l : List (Property × α)) :
    distinctFrom taken (l.map fun (q, b) => (q, f b)) =
      (distinctFrom taken l).map fun (q, b) => (q, f b) := by
  induction l generalizing taken with
  | nil => rfl
  | cons entry rest ih =>
    obtain ⟨q, b⟩ := entry
    simp only [List.map_cons, distinctFrom, ih]
    split <;> rfl

/-- Properties are arranged whatever their values are. -/
theorem arrange_map {β : Type} (f : α → β) (table : List (String × α)) :
    arrange (table.map fun (name, a) => (name, f a)) =
      (arrange table).map fun (p, a) => (p, f a) := by
  have hsorted : sortProperties (table.map fun (name, a) => (name, f a)) =
      (sortProperties table).map fun (p, a) => (p, f a) := by
    induction table with
    | nil => rfl
    | cons entry rest ih =>
      change insertProperty _ (f entry.2) (sortProperties (rest.map _)) = _
      rw [ih, insertProperty_map]
      rfl
  unfold arrange
  rw [hsorted, distinctFrom_map]

/-- Tables with the same keys and related values are those of the first and of
the second values of one table. -/
theorem exists_eq_map_of_sameKey {β : Type} {R : α → β → Prop} {t : List (String × α)}
    {t' : List (String × β)} (h : List.Forall₂ (Table.SameKey R) t t') :
    ∃ pairs : List (String × {p : α × β // R p.1 p.2}),
      t = pairs.map (fun (name, p) => (name, p.1.1)) ∧
        t' = pairs.map fun (name, p) => (name, p.1.2) := by
  induction h with
  | nil => exact ⟨[], rfl, rfl⟩
  | cons hentry _ ih =>
    obtain ⟨name, hR⟩ := hentry
    obtain ⟨pairs, rfl, rfl⟩ := ih
    exact ⟨(name, ⟨(_, _), hR⟩) :: pairs, rfl, rfl⟩

/-- Tables with the same keys are arranged alike. -/
theorem forall₂_arrange {β : Type} {R : α → β → Prop} {t : List (String × α)}
    {t' : List (String × β)} (h : List.Forall₂ (Table.SameKey R) t t') :
    List.Forall₂ (Table.SameKey R) (arrange t) (arrange t') := by
  obtain ⟨pairs, rfl, rfl⟩ := exists_eq_map_of_sameKey h
  have hfirst : arrange (pairs.map fun (name, p) => (name, p.1.1)) = _ :=
    arrange_map (fun p => p.1.1) pairs
  have hsecond : arrange (pairs.map fun (name, p) => (name, p.1.2)) = _ :=
    arrange_map (fun p => p.1.2) pairs
  rw [hfirst, hsecond, List.forall₂_map_left_iff, List.forall₂_map_right_iff]
  exact List.forall₂_same.mpr fun entry _ => .mk entry.1 entry.2.2

/-- The order in which the properties are written does not count. -/
theorem arrange_eq_of_perm {t t' : List (String × α)} (h : t.Perm t')
    (hdistinct : (t.map (·.1)).Nodup) : arrange t = arrange t' := by
  have hsorted : (sortProperties t).Perm (sortProperties t') :=
    ((perm_sortProperties t).trans (h.map _)).trans (perm_sortProperties t').symm
  have hmem : ∀ x ∈ sortProperties t, (x.1.original, x.2) ∈ t := by
    intro x hx
    obtain ⟨entry, hentry, rfl⟩ := List.mem_map.mp ((perm_sortProperties t).mem_iff.mp hx)
    exact hentry
  unfold arrange
  congr 1
  refine List.Perm.eq_of_pairwise ?_ (pairwise_key_sortProperties t)
    (pairwise_key_sortProperties t') hsorted
  intro x y hx hy hxy hyx
  have hy := hsorted.mem_iff.mpr hy
  have hkey : (x.1.name, x.1.original) = (y.1.name, y.1.original) :=
    toLex.injective (le_antisymm hxy hyx)
  obtain ⟨hname, horiginal⟩ := Prod.mk.inj hkey
  have hentry := List.inj_on_of_nodup_map hdistinct (hmem x hx) (hmem y hy) horiginal
  obtain ⟨⟨name, original⟩, a⟩ := x
  obtain ⟨⟨name', original'⟩, a'⟩ := y
  simp_all only [Prod.mk.injEq, true_and]

end Arrange

end ProviderSchema
