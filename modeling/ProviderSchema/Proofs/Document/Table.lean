import Mathlib.Data.List.Forall2
import ProviderSchema.Document.Table

/-!
# Entries of tables

`Table.get?` yields the value of the first entry of a name.  `Table.SameKey`
relates the entries of two tables, which have the same keys in the same order
if it relates them one to one.
-/

namespace ProviderSchema

/-- Entries have the same key, and their values are related. -/
inductive Table.SameKey {κ α β : Type} (R : α → β → Prop) : κ × α → κ × β → Prop where
  | mk (key : κ) {a : α} {b : β} (h : R a b) : SameKey R (key, a) (key, b)

/-- What the relation of values from the first table implies holds of the values. -/
theorem Table.forall₂_sameKey_imp {κ α β : Type} {R S : α → β → Prop} {t : List (κ × α)}
    {t' : List (κ × β)} (h : List.Forall₂ (SameKey R) t t')
    (himp : ∀ key a b, (key, a) ∈ t → R a b → S a b) : List.Forall₂ (SameKey S) t t' := by
  induction h with
  | nil => exact .nil
  | cons hentry _ ih =>
    obtain ⟨key, hR⟩ := hentry
    refine .cons (.mk key (himp key _ _ List.mem_cons_self hR)) (ih ?_)
    intro key a b hmem
    exact himp key a b (List.mem_cons_of_mem _ hmem)

/-- Lists are related in one way if they are in another one that comes to the same
for their items. -/
theorem forall₂_congr_of_mem {α β : Type} {R S : α → β → Prop} {l : List α} {l' : List β}
    (h : ∀ a ∈ l, ∀ b ∈ l', (R a b ↔ S a b)) : List.Forall₂ R l l' ↔ List.Forall₂ S l l' := by
  induction l generalizing l' with
  | nil => simp
  | cons a l ih =>
    cases l' with
    | nil => simp
    | cons b l' =>
      rw [List.forall₂_cons, List.forall₂_cons, h a List.mem_cons_self b List.mem_cons_self, ih]
      intro c hc d hd
      exact h c (List.mem_cons_of_mem _ hc) d (List.mem_cons_of_mem _ hd)

@[simp]
theorem Table.get?_nil {α : Type} (name : String) :
    Table.get? ([] : List (String × α)) name = none := rfl

@[simp]
theorem Table.get?_cons {α : Type} (other : String) (a : α) (table : List (String × α))
    (name : String) :
    Table.get? ((other, a) :: table) name =
      if other = name then some a else Table.get? table name := by
  unfold Table.get?
  rw [List.find?_cons]
  by_cases h : other = name <;> simp [h]

/-- The value of a name, after a function of names and values is applied to
all entries. -/
theorem Table.get?_mapEntries {α β : Type} (f : String → α → β) (table : List (String × α))
    (name : String) :
    Table.get? (table.map fun (key, a) => (key, f key a)) name =
      (Table.get? table name).map (f name) := by
  induction table with
  | nil => rfl
  | cons entry rest ih =>
    rw [List.map_cons, Table.get?_cons, Table.get?_cons, ih]
    by_cases h : entry.1 = name
    · rw [if_pos h, if_pos h, h, Option.map_some]
    · rw [if_neg h, if_neg h]

/-- The value of a name, after `f` is applied to all values. -/
theorem Table.get?_map {α β : Type} (f : α → β) (table : List (String × α))
    (name : String) :
    Table.get? (table.map fun (key, a) => (key, f a)) name =
      (Table.get? table name).map f :=
  get?_mapEntries (fun _ => f) table name

/-- The entry of a name is one of the table. -/
theorem Table.mem_of_get?_eq_some {α : Type} {table : List (String × α)}
    {name : String} {value : α} (h : Table.get? table name = some value) :
    (name, value) ∈ table := by
  unfold Table.get? at h
  rw [Option.map_eq_some_iff] at h
  obtain ⟨⟨key, found⟩, hfind, rfl⟩ := h
  have hkey : key = name := by simpa using List.find?_some hfind
  rw [← hkey]
  exact List.mem_of_find?_eq_some hfind

/-- The value of a name that is not among those filtered out. -/
theorem Table.get?_filter {α : Type} {p : String × α → Bool} {name : String}
    (h : ∀ {value}, p (name, value) = true) (table : List (String × α)) :
    Table.get? (table.filter p) name = Table.get? table name := by
  have hkept : (fun entry => decide (p entry = true ∧ decide (entry.1 = name) = true)) =
      fun entry : String × α => decide (entry.1 = name) := by
    funext ⟨key, value⟩
    by_cases hkey : key = name
    · simp [hkey, h]
    · simp [hkey]
  unfold Table.get?
  rw [List.find?_filter, hkept]

end ProviderSchema
