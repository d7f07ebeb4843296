import Mathlib.Data.List.Forall2
import Mathlib.Data.Option.Basic
import ProviderSchema.Proofs.OpenApi.Step

/-!
# A schema in the place of another one

`Schema.modifyAt` puts something in the place of the schema that a path of steps
leads to and leaves everything else as it is.

`Children.Related` says that children stand in the same places, and that those in
one place are related, members of tuples apart.  If every schema is related to
itself and to what is put in its place, the children before and after a
replacement are related (`Children.related_modify`), so what passes from related
children on to the schemas that hold them passes from the replaced schema on to
the root.
-/

namespace ProviderSchema.OpenApi

namespace Children

/-- The children with `f` applied to the one that a step leads to. -/
def modify {α : Type} (f : α → α) (c : Children α) : Step → Children α
  | .property name =>
    { c with properties := c.properties.map fun (n, s) => (n, if n = name then f s else s) }
  | .items =>
    { c with items := c.items.map fun
        | .schema s => .schema (f s)
        | other => other }
  | .additional =>
    { c with additional := c.additional.map fun
        | .schema s => .schema (f s)
        | other => other }
  | .allOf i => { c with allOf := c.allOf.modify i f }
  | .oneOf i => { c with oneOf := c.oneOf.modify i f }
  | .anyOf i => { c with anyOf := c.anyOf.modify i f }
  | .tuple i =>
    { c with items := c.items.map fun
        | .tuple members => .tuple (members.modify i f)
        | other => other }

end Children

/-- The schema with `f` applied to the one that a path of steps leads to. -/
def Schema.modifyAt (f : Schema → Schema) : List Step → Schema → Schema
  | [], s => f s
  | _ :: _, .reference target => .reference target
  | step :: path, .inline keywords c => .inline keywords (c.modify (modifyAt f path) step)

namespace Children

/-- Children stand in the same places, and those in one place are related. -/
structure Related (R : Schema → Schema → Prop) (c c' : Children Schema) : Prop where
  properties : List.Forall₂ (Table.SameKey R) c.properties c'.properties
  items : Option.Rel R (c.child? .items) (c'.child? .items)
  additional : Option.Rel R (c.child? .additional) (c'.child? .additional)
  allOf : List.Forall₂ R c.allOf c'.allOf
  anyOf : List.Forall₂ R c.anyOf c'.anyOf
  oneOf : List.Forall₂ R c.oneOf c'.oneOf

variable {R : Schema → Schema → Prop} {c : Children Schema}

theorem rel_self {o : Option Schema} (h : ∀ s, o = some s → R s s) : Option.Rel R o o := by
  cases o with
  | none => exact .none
  | some s => exact .some (h s rfl)

/-- Children are related to themselves if each of them is. -/
theorem related_self (h : ∀ s, c.Holds s → R s s) : Related R c c where
  properties := List.forall₂_same.mpr fun p hp => .mk p.1 (h p.2 (.property p.1 hp))
  items := rel_self fun s hs => h s (holds_of_child?_eq_some hs)
  additional := rel_self fun s hs => h s (holds_of_child?_eq_some hs)
  allOf := List.forall₂_same.mpr fun s hs => h s (.composed (by simp [hs]))
  anyOf := List.forall₂_same.mpr fun s hs => h s (.composed (by simp [hs]))
  oneOf := List.forall₂_same.mpr fun s hs => h s (.composed (by simp [hs]))

theorem forall₂_modify {f : Schema → Schema} (hself : ∀ s, R s s) (hf : ∀ s, R s (f s)) (i : Nat)
    (l : List Schema) : List.Forall₂ R l (l.modify i f) := by
  induction l generalizing i with
  | nil =>
    rw [List.modify_nil]
    exact .nil
  | cons s rest ih =>
    cases i with
    | zero => exact .cons (hf s) (List.forall₂_same.mpr fun s _ => hself s)
    | succ i => exact .cons (hself s) (ih i)

/-- Children are related to what becomes of them by a replacement if every schema is
related to what is put in its place. -/
theorem related_modify {f : Schema → Schema} (hself : ∀ s, R s s) (hf : ∀ s, R s (f s))
    (c : Children Schema) (step : Step) : Related R c (c.modify f step) := by
  have hsame : Related R c c := related_self fun s _ => hself s
  cases step with
  | property name =>
    refine { hsame with properties := ?_ }
    rw [modify, List.forall₂_map_right_iff]
    refine List.forall₂_same.mpr fun p _ => .mk p.1 ?_
    split
    · exact hf p.2
    · exact hself p.2
  | items =>
    refine { hsame with items := ?_ }
    obtain ⟨properties, additional, items, allOf, oneOf, anyOf⟩ := c
    rcases items with _ | ⟨_ | _ | s⟩
    · exact .none
    · exact .none
    · exact .none
    · exact .some (hf s)
  | additional =>
    refine { hsame with additional := ?_ }
    obtain ⟨properties, additional, items, allOf, oneOf, anyOf⟩ := c
    rcases additional with _ | ⟨_ | s⟩
    · exact .none
    · exact .none
    · exact .some (hf s)
  | allOf i => exact { hsame with allOf := forall₂_modify hself hf i c.allOf }
  | oneOf i => exact { hsame with oneOf := forall₂_modify hself hf i c.oneOf }
  | anyOf i => exact { hsame with anyOf := forall₂_modify hself hf i c.anyOf }
  | tuple i =>
    refine { hsame with items := ?_ }
    obtain ⟨properties, additional, items, allOf, oneOf, anyOf⟩ := c
    rcases items with _ | ⟨_ | _ | s⟩
    · exact .none
    · exact .none
    · exact .none
    · exact .some (hself s)

end Children

/-- What every schema is to itself, and what passes from related children on to the
schemas that hold them, every schema is to what becomes of it by a replacement. -/
theorem Schema.rel_modifyAt {R : Schema → Schema → Prop} {f : Schema → Schema}
    (hself : ∀ s, R s s)
    (hinline : ∀ keywords {c c'}, Children.Related R c c' →
      R (.inline keywords c) (.inline keywords c'))
    (hf : ∀ s, R s (f s)) (path : List Step) (s : Schema) : R s (s.modifyAt f path) := by
  induction path generalizing s with
  | nil => exact hf s
  | cons step path ih =>
    cases s with
    | reference target => exact hself _
    | inline keywords c => exact hinline keywords (Children.related_modify hself ih c step)

end ProviderSchema.OpenApi
