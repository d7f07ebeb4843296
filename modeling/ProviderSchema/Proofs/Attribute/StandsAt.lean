import ProviderSchema.Proofs.Attribute.Everywhere
import ProviderSchema.Proofs.Attribute.Pruning

/-!
# Attributes at a path

`Attribute.findNames?` finds one attribute at a path, the first one.  Where
names repeat there may be others at the same path, and `StandsAt` tells of all
of them: an attribute stands at a path if the names of the path lead to it in
some way.

What holds everywhere holds of what stands at a path (`Each.of_standsAt`), and
nothing stands at a path that is left out if leaving it out changes nothing
(`drop_eq_false_of_standsAt`).
-/

namespace ProviderSchema.Attribute

/-- An attribute stands at a path of names, at the top or below others. -/
inductive StandsAt : List Attribute → List String → Attribute → Prop where
  | here {attributes : List Attribute} {a : Attribute} (h : a ∈ attributes) :
      StandsAt attributes [a.name] a
  | inside {attributes children : List Attribute} {a b : Attribute} {path : List String}
      (h : a ∈ attributes) (hchildren : a.children? = some children)
      (rest : StandsAt children path b) : StandsAt attributes (a.name :: path) b

theorem Each.of_standsAt {P : Attribute → Prop} {attributes : List Attribute}
    (heach : ∀ a ∈ attributes, a.Each P) {path : List String} {a : Attribute}
    (h : StandsAt attributes path a) : a.Each P := by
  induction h with
  | here h => exact heach _ h
  | inside h hchildren _ ih => exact ih ((heach _ h).children hchildren)

/-- Where leaving something out changes nothing, nothing stands at a path that
is left out. -/
theorem drop_eq_false_of_standsAt {drop : List String → Bool} {attributes : List Attribute}
    {path names : List String} {a : Attribute} (hpruned : pruned drop path attributes = attributes)
    (h : StandsAt attributes names a) : drop (path ++ names) = false := by
  induction h generalizing path with
  | here h =>
    rw [← hpruned] at h
    exact drop_of_mem_pruned h
  | @inside attributes children a b names h hchildren _ ih =>
    have hkeep : ∀ b ∈ attributes, drop (path ++ [b.name]) = false := by
      intro b hb
      rw [← hpruned] at hb
      exact drop_of_mem_pruned hb
    -- As nothing is left out of the list, nothing is left out below its attributes.
    have hbelow : prunedBelow drop (path ++ [a.name]) a = a := by
      have hall : (attributes.filter fun b => !drop (path ++ [b.name])) = attributes := by
        rw [List.filter_eq_self]
        intro b hb
        rw [hkeep b hb]
        rfl
      have hmap : (attributes.map fun b => prunedBelow drop (path ++ [b.name]) b) =
          attributes.map id := by
        rw [pruned_eq_map_filter, hall] at hpruned
        rw [hpruned, List.map_id]
      exact List.map_inj_left.mp hmap a h
    have hrest : pruned drop (path ++ [a.name]) children = children := by
      have hleft := congrArg children? hbelow
      rw [children?_prunedBelow, hchildren] at hleft
      exact Option.some.inj hleft
    have hdrop := ih hrest
    rwa [List.append_assoc] at hdrop

end ProviderSchema.Attribute
