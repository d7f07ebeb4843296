import ProviderSchema.Proofs.OpenApi.Dereference
import ProviderSchema.Proofs.OpenApi.Step

/-!
# Walks through a description, and inlining

A walk takes a list of steps from a schema.  Before every step, and at the
end, references are followed through the component schemas as they stand in
the description.  What a walk shows of the schema it ends at is all that
the schema says itself: every keyword but the record of where it was copied
from, and the shape of its children.

Inlining keeps every walk (`walk_inlined`).  An inlined schema is finite and
the graph of the references need not be, so the two are not equal in any
simpler sense: the inlined schema is the graph unrolled up to the references
that were left, and a walk goes on through those in the graph.

The argument has three steps.

* `sameWalks_reference` and `sameWalks_copiedFrom`: putting a target in the
  place of a reference to it keeps the walks, and so does recording where a
  schema was copied from.
* `sameWalks_substitute`: if what replaces each reference has its walks, then
  a schema keeps its walks when all references in it are replaced.  The
  members of a tuple are not touched, so nothing has to be shown for them.
* `sameWalks_expand`: an induction on the number of nested expansions.  It
  needs nothing about the references that are being expanded already.  They
  stay, and a reference that stays has its own walks.
-/

namespace ProviderSchema.OpenApi

/-- The keywords of a schema without the record of where it was copied from. -/
def Keywords.withoutOrigin (k : Keywords) : Keywords := { k with origin := none }

/-- How a walk ends. -/
inductive WalkEnd where
  /-- With a schema that stands for no inline schema. -/
  | stuck (left : List Step)
  /-- With a step for which there is no child. -/
  | impossible (left : List Step)
  /-- With a schema that has these keywords and children of this shape. -/
  | arrived (keywords : Keywords) (shape : Children Unit)

namespace Schema

/-- The end of a walk. -/
def walk (schemas : List (String × Schema)) (steps : List Step) (schema : Schema) :
    WalkEnd :=
  match dereference? schemas schema with
  | none => .stuck steps
  | some (keywords, children) =>
    match steps with
    | [] => .arrived keywords.withoutOrigin children.shape
    | step :: rest =>
      match children.child? step with
      | none => .impossible (step :: rest)
      | some child => walk schemas rest child

/-- No walk tells two schemas apart. -/
def SameWalks (schemas : List (String × Schema)) (s t : Schema) : Prop :=
  ∀ steps, walk schemas steps s = walk schemas steps t

variable {schemas : List (String × Schema)}

theorem SameWalks.refl (s : Schema) : SameWalks schemas s s := fun _ => rfl

theorem SameWalks.trans {s t u : Schema} (h : SameWalks schemas s t)
    (h' : SameWalks schemas t u) : SameWalks schemas s u :=
  fun steps => (h steps).trans (h' steps)

/-- Walks depend only on what a schema stands for. -/
theorem SameWalks.of_dereference?_eq {s t : Schema}
    (h : dereference? schemas s = dereference? schemas t) : SameWalks schemas s t := by
  intro steps
  unfold walk
  rw [h]

/-- Inline schemas that say the same themselves, and whose children have the
same walks one by one, have the same walks. -/
theorem SameWalks.inline {k k' : Keywords} {c c' : Children Schema}
    (hkeywords : k.withoutOrigin = k'.withoutOrigin) (hshape : c.shape = c'.shape)
    (hchild : ∀ step, Option.Rel (SameWalks schemas) (c.child? step) (c'.child? step)) :
    SameWalks schemas (.inline k c) (.inline k' c') := by
  intro steps
  cases steps with
  | nil => simp [walk, hkeywords, hshape]
  | cons step rest =>
    have hstep := hchild step
    unfold walk
    simp only [dereference?_inline]
    generalize c.child? step = s at hstep
    generalize c'.child? step = t at hstep
    cases hstep with
    | none => rfl
    | some h => exact h rest

/-- A reference has the walks of its target. -/
theorem sameWalks_reference {target name : String} {s : Schema}
    (h : lookup schemas target = .ok (name, s)) :
    SameWalks schemas (.reference target) s :=
  .of_dereference?_eq (dereference?_reference h)

/-- The record of where a schema was copied from is no part of its walks. -/
theorem sameWalks_copiedFrom (name : String) (s : Schema) :
    SameWalks schemas s (s.copiedFrom name) := by
  cases s with
  | reference target => exact .refl _
  | inline k c =>
    refine .inline rfl rfl fun step => ?_
    cases c.child? step with
    | none => exact .none
    | some child => exact .some (.refl child)

/-- A schema keeps its walks when the references in it are replaced by
schemas with their walks. -/
theorem sameWalks_substitute {f : String → Schema}
    (hf : ∀ target, SameWalks schemas (.reference target) (f target)) (s : Schema) :
    SameWalks schemas s (s.substitute f) := by
  induction s using Schema.inductionOnSteps with
  | reference target =>
    rw [substitute_reference]
    exact hf target
  | inline k c ih =>
    rw [substitute_inline]
    refine .inline rfl (shape_substituteChildren f c).symm fun step => ?_
    rw [child?_substituteChildren]
    cases hchild : c.child? step with
    | none => split <;> exact .none
    | some child =>
      split
      · exact .some (.refl child)
      · exact .some (ih step child hchild)

/-- What a reference is replaced with has the walks of the reference. -/
theorem sameWalks_expand (expansions : Nat) (visited : List String) (target : String) :
    SameWalks schemas (.reference target) (expand schemas expansions visited target) := by
  induction expansions generalizing visited target with
  | zero => exact .refl _
  | succ expansions ih =>
    rw [expand]
    split
    · exact .refl _
    · split
      · exact .refl _
      · rename_i name s hlookup
        have hbelow : SameWalks schemas s
            (s.substitute (expand schemas expansions (target :: visited))) :=
          sameWalks_substitute (fun other => ih (target :: visited) other) s
        exact ((sameWalks_reference hlookup).trans hbelow).trans (sameWalks_copiedFrom name _)

end Schema

/-- Inlining the references of a schema keeps the end of every walk from it
through the description: where one walk is stuck or finds no child the other
one is stuck or finds no child at the same step, and where one arrives the
other one arrives at a schema that says the same. -/
theorem walk_inlined (d : Description) (s : Schema) (steps : List Step) :
    (s.inlined d.schemas).walk d.schemas steps = s.walk d.schemas steps :=
  (Schema.sameWalks_substitute (Schema.sameWalks_expand d.schemas.length []) s steps).symm

end ProviderSchema.OpenApi
