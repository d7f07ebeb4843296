import ProviderSchema.OpenApi.Exploration
import ProviderSchema.Proofs.Document.MergeByKey

/-!
# Effective parameters

The parameters of an operation are those of its path with its own put in one by
one: each replaces the first parameter of its name and place, or comes last.

`replaceByKey` is what replacing does to a list in general.  The keys stay
where they are and new ones follow (`map_key_replaceByKey`), the first entry of
a key is the one that was put in last (`find?_replaceByKey`), and an entry that
is not the first of its key is left alone (`getElem?_replaceByKey`).

So a pair of a name and a place has exactly one effective parameter if the path
does not declare a pair twice, and only then
(`exists_explore_eq_ok_and_combined`): of the parameters that a path has for
one pair, an operation replaces the first and leaves the others.
-/

namespace ProviderSchema

/-! ## Replacing entries by their keys -/

section ReplaceByKey

variable {α κ : Type} [DecidableEq κ] (key : α → κ)

/-- A list with an entry in the place of the first one that has its key, or at
the end. -/
def replaceOne (fresh : α) (l : List α) : List α :=
  upsert (fun a => key a = key fresh) (fun _ => fresh) fresh l

/-- A list with the entries of another one put in one by one. -/
def replaceByKey (target entries : List α) : List α :=
  entries.foldl (fun l fresh => replaceOne key fresh l) target

variable {key}

/-- The first entry of the key takes the new value, which has that key. -/
theorem replaceOne_eq (fresh : α) (l : List α) :
    replaceOne key fresh l =
      upsert (fun a => key a = key fresh) (fun a => if key a = key fresh then fresh else a)
        fresh l := by
  unfold replaceOne
  induction l with
  | nil => rfl
  | cons a rest ih =>
    by_cases h : key a = key fresh
    · simp [upsert, h]
    · simp [upsert, h, ih]

theorem key_replaced (fresh a : α) : key (if key a = key fresh then fresh else a) = key a := by
  split
  · rename_i h
    exact h.symm
  · rfl

theorem map_key_replaceOne (fresh : α) (l : List α) :
    (replaceOne key fresh l).map key =
      if key fresh ∈ l.map key then l.map key else l.map key ++ [key fresh] := by
  rw [replaceOne_eq, map_key_upsert (key_replaced fresh)]

theorem find?_replaceOne (fresh : α) (name : κ) (l : List α) :
    (replaceOne key fresh l).find? (fun a => key a = name) =
      if key fresh = name then some fresh else l.find? fun a => key a = name := by
  rw [replaceOne_eq, find?_upsert (key_replaced fresh)]
  by_cases hname : key fresh = name
  · rw [if_pos hname, if_pos hname]
    cases hfind : l.find? fun a => key a = name with
    | none => rfl
    | some a =>
      have ha : key a = name := by simpa using List.find?_some hfind
      simp [ha, hname]
  · rw [if_neg hname, if_neg hname]

/-- An entry stays if it is not the first one of its key. -/
theorem getElem?_replaceOne {fresh a : α} {l : List α} {i : Nat} (ha : l[i]? = some a)
    (h : key a ≠ key fresh ∨ key a ∈ (l.take i).map key) :
    (replaceOne key fresh l)[i]? = some a := by
  unfold replaceOne
  induction l generalizing i with
  | nil => cases ha
  | cons b rest ih =>
    rw [upsert]
    by_cases hb : key b = key fresh
    · rw [if_pos (by simpa using hb)]
      cases i with
      | zero =>
        cases ha
        simp [hb] at h
      | succ i => exact ha
    · rw [if_neg (by simpa using hb)]
      cases i with
      | zero => exact ha
      | succ i =>
        apply ih ha
        by_cases hfresh : key a = key fresh
        · right
          simpa [hfresh, Ne.symm hb] using h
        · exact .inl hfresh

theorem map_key_replaceByKey [BEq κ] [LawfulBEq κ] (target entries : List α) :
    (replaceByKey key target entries).map key =
      target.map key ++ ((entries.map key).removeAll (target.map key)).eraseDups := by
  unfold replaceByKey List.removeAll
  induction entries generalizing target with
  | nil => simp
  | cons fresh rest ih =>
    rw [List.foldl_cons, ih, map_key_replaceOne, List.map_cons]
    by_cases hmem : key fresh ∈ target.map key
    · rw [if_pos hmem, List.filter_cons_of_neg (by simpa using hmem)]
    · rw [if_neg hmem, List.filter_cons_of_pos (by simpa using hmem), List.eraseDups_cons,
        List.filter_filter, List.append_assoc, List.singleton_append]
      congr 3
      apply List.filter_congr
      intro name _
      rw [Bool.eq_iff_iff]
      simp [and_comm]

/-- The first entry of a key is the last one that was put in, if there is one. -/
theorem find?_replaceByKey (target entries : List α) (name : κ) :
    (replaceByKey key target entries).find? (fun a => key a = name) =
      (entries.reverse.find? fun a => key a = name).or (target.find? fun a => key a = name) := by
  unfold replaceByKey
  induction entries generalizing target with
  | nil => simp
  | cons fresh rest ih =>
    rw [List.foldl_cons, ih, find?_replaceOne, List.reverse_cons, List.find?_append,
      Option.or_assoc]
    by_cases hname : key fresh = name <;> simp [hname]

/-- What is not the first entry of its key stays where it is. -/
theorem getElem?_replaceByKey {target : List α} (entries : List α) {a : α} {i : Nat}
    (ha : target[i]? = some a) (h : key a ∈ (target.take i).map key) :
    (replaceByKey key target entries)[i]? = some a := by
  unfold replaceByKey
  induction entries generalizing target with
  | nil => exact ha
  | cons fresh rest ih =>
    apply ih
    · exact getElem?_replaceOne ha (.inr h)
    · -- The keys before the entry are those that were there.
      have hlength : i < (target.map key).length := by
        rw [List.length_map]
        exact (List.getElem?_eq_some_iff.mp ha).1
      rw [List.map_take, map_key_replaceOne]
      rw [List.map_take] at h
      split
      · exact h
      · rw [List.take_append_of_le_length (by omega)]
        exact h

end ReplaceByKey

/-- Of entries whose keys are distinct, one has the key of each. -/
theorem filter_key_eq_singleton {α κ : Type} [DecidableEq κ] {key : α → κ} {l : List α}
    (h : (l.map key).Nodup) {a : α} (ha : a ∈ l) : l.filter (fun b => key b = key a) = [a] := by
  induction l with
  | nil => cases ha
  | cons b rest ih =>
    rw [List.map_cons, List.nodup_cons] at h
    rcases List.mem_cons.mp ha with rfl | ha
    · have hnone : rest.filter (fun b => key b = key a) = [] := by
        rw [List.filter_eq_nil_iff]
        intro b hb hkey
        apply h.1
        rw [List.mem_map]
        exact ⟨b, hb, by simpa using hkey⟩
      rw [List.filter_cons_of_pos (by simp), hnone]
    · have hne : key b ≠ key a := by
        intro hkey
        apply h.1
        rw [hkey]
        exact List.mem_map_of_mem ha
      rw [List.filter_cons_of_neg (by simpa using hne), ih h.2 ha]

namespace OpenApi

/-! ## Parameters -/

/-- What makes a parameter: its name and its place. -/
def Parameter.pair (p : Parameter) : String × ParameterPlace := (p.name, p.place)

theorem effectiveParameters_eq_replaceByKey (shared own : List Parameter) :
    effectiveParameters shared own = replaceByKey Parameter.pair shared own := by
  have hsame (p : Parameter) :
      Parameter.sameAs p = fun q => decide (q.pair = p.pair) := by
    funext q
    rw [Bool.eq_iff_iff]
    simp only [Parameter.sameAs, Parameter.pair, Bool.and_eq_true, decide_eq_true_eq,
      Prod.mk.injEq]
    exact and_congr eq_comm eq_comm
  unfold effectiveParameters replaceByKey replaceOne
  simp only [hsame]

/-- The parameters of a list that holds no references. -/
theorem inlineParameters_map_inline (ps : List Parameter) :
    inlineParameters (ps.map .inline) = .ok ps := by
  induction ps with
  | nil => rfl
  | cons p rest ih => rw [List.map_cons, inlineParameters, ih]

/-- How the parameters of a path are combined with those of an operation. -/
structure Combined (shared own effective : List Parameter) : Prop where
  /-- The pairs of the path stand as they are declared, and those that only the
  operation has follow in its order, once each. -/
  pairs : effective.map Parameter.pair =
    shared.map Parameter.pair ++
      ((own.map Parameter.pair).removeAll (shared.map Parameter.pair)).eraseDups
  /-- The first parameter of a pair is the last one that the operation declares,
  or else the first one that the path declares. -/
  first : ∀ pair, effective.find? (fun p => p.pair = pair) =
    (own.reverse.find? fun p => p.pair = pair).or (shared.find? fun p => p.pair = pair)
  /-- What the path declares for a pair again is left as it is. -/
  repeated : ∀ (i : Nat) (p : Parameter), shared[i]? = some p →
    p.pair ∈ (shared.take i).map Parameter.pair → effective[i]? = some p

theorem combined_effectiveParameters (shared own : List Parameter) :
    Combined shared own (effectiveParameters shared own) := by
  rw [effectiveParameters_eq_replaceByKey]
  exact ⟨map_key_replaceByKey shared own, find?_replaceByKey shared own,
    fun _ _ => getElem?_replaceByKey own⟩

/-- Every pair that is declared has exactly one effective parameter. -/
structure OnePerPair (shared own effective : List Parameter) : Prop where
  /-- The pairs of the path come first, in its order, and then those that only
  the operation has. -/
  pairs : effective.map Parameter.pair =
    (shared.map Parameter.pair ++ own.map Parameter.pair).eraseDups
  /-- The one parameter of a pair is declared by the operation if that declares
  the pair, and by the path if not. -/
  one : ∀ pair ∈ shared.map Parameter.pair ++ own.map Parameter.pair,
    ∃ p, effective.filter (fun q => q.pair = pair) = [p] ∧
      p ∈ if pair ∈ own.map Parameter.pair then own else shared

/-- There is one parameter for each pair unless the path declares one twice. -/
theorem Combined.onePerPair_iff {shared own effective : List Parameter}
    (h : Combined shared own effective) :
    OnePerPair shared own effective ↔ (shared.map Parameter.pair).Nodup := by
  constructor
  · intro hone
    have hpairs := hone.pairs
    rw [h.pairs, List.eraseDups_append, List.append_cancel_right_eq] at hpairs
    rw [hpairs]
    exact nodup_eraseDups _
  · intro hdistinct
    have hpairs : effective.map Parameter.pair =
        (shared.map Parameter.pair ++ own.map Parameter.pair).eraseDups := by
      rw [h.pairs, List.eraseDups_append, eraseDups_of_nodup hdistinct]
    have hnodup : (effective.map Parameter.pair).Nodup := by
      rw [hpairs]
      exact nodup_eraseDups _
    refine ⟨hpairs, ?_⟩
    intro pair hpair
    have hmem : pair ∈ effective.map Parameter.pair := by
      rw [hpairs, List.mem_eraseDups]
      exact hpair
    have hfound : (effective.find? fun p => p.pair = pair).isSome := by
      rw [List.find?_isSome]
      obtain ⟨p, hp, hpair⟩ := List.mem_map.mp hmem
      exact ⟨p, hp, by simpa using hpair⟩
    obtain ⟨p, hp⟩ := Option.isSome_iff_exists.mp hfound
    have hpair : p.pair = pair := by simpa using List.find?_some hp
    refine ⟨p, ?_, ?_⟩
    · rw [← hpair]
      exact filter_key_eq_singleton hnodup (List.mem_of_find?_eq_some hp)
    · rw [h.first, Option.or_eq_some_iff] at hp
      rcases hp with hown | ⟨hnone, hshared⟩
      · have hp := List.mem_of_find?_eq_some hown
        rw [List.mem_reverse] at hp
        have hdeclared : pair ∈ own.map Parameter.pair := by
          rw [← hpair]
          exact List.mem_map_of_mem hp
        rwa [if_pos hdeclared]
      · have hundeclared : pair ∉ own.map Parameter.pair := by
          intro hdeclared
          obtain ⟨q, hq, hqpair⟩ := List.mem_map.mp hdeclared
          rw [List.find?_eq_none] at hnone
          exact hnone q (List.mem_reverse.mpr hq) (by simpa using hqpair)
        rw [if_neg hundeclared]
        exact List.mem_of_find?_eq_some hshared

/-- An operation without references among its parameters, and those of its
path, is found, and its effective parameters are those of the path combined
with its own.  There is one for each pair exactly if the path declares no pair
twice. -/
theorem exists_explore_eq_ok_and_combined {d : Description} {target : OperationTarget}
    {method : Method} {item : PathItem} {operation : Operation} {shared own : List Parameter}
    (hmethod : Method.ofName? target.method = some method)
    (hitem : Table.get? d.paths target.path = some item)
    (hoperation : item.operation? method = some operation)
    (hshared : item.parameters = shared.map .inline)
    (hown : operation.parameters = own.map .inline) :
    ∃ effective, d.explore target = .ok ⟨target.path, method, operation, effective⟩ ∧
      Combined shared own effective ∧
      (OnePerPair shared own effective ↔ (shared.map Parameter.pair).Nodup) := by
  have hcombined := combined_effectiveParameters shared own
  refine ⟨effectiveParameters shared own, ?_, hcombined, hcombined.onePerPair_iff⟩
  unfold Description.explore
  rw [hmethod, hitem]
  dsimp only
  rw [hoperation]
  dsimp only
  rw [hshared, hown, inlineParameters_map_inline, inlineParameters_map_inline]

/-- A parameter of a sample path. -/
def houseParameter (name : String) (place : ParameterPlace) (description : String) : Parameter :=
  { name, place, description := some description }

/-- A description with one operation, which shares parameters with its path. -/
def housePath (shared own : List Parameter) : Description :=
  { openapi := "3.0.0"
    info := { title := "Houses", version := "1" }
    paths := [("/houses/{id}",
      { parameters := shared.map .inline, get := some { parameters := own.map .inline } })] }

/-- Parameters that a path declares once each. -/
def sharedByHouses : List Parameter :=
  [houseParameter "id" .path "Number", houseParameter "page" .query "Page"]

/-- Parameters of an operation, of which one replaces a shared one, one has the
name of a shared one in another place, and one is declared twice. -/
def ownOfHouses : List Parameter :=
  [houseParameter "page" .header "Sheet", houseParameter "size" .query "Size",
    houseParameter "id" .path "House", houseParameter "size" .query "Length"]

/-- Of the parameters of a house, each has one description. -/
theorem exists_explore_eq_ok_and_combined_houses :
    ∃ effective, (housePath sharedByHouses ownOfHouses).explore ⟨"/houses/{id}", "get"⟩ =
        .ok ⟨"/houses/{id}", .get, { parameters := ownOfHouses.map .inline }, effective⟩ ∧
      OnePerPair sharedByHouses ownOfHouses effective ∧
      effective.map (fun p => (p.pair, p.description)) =
        [(("id", .path), some "House"), (("page", .query), some "Page"),
          (("page", .header), some "Sheet"), (("size", .query), some "Length")] := by
  obtain ⟨effective, hexplore, -, hone⟩ := @exists_explore_eq_ok_and_combined
    (housePath sharedByHouses ownOfHouses) ⟨"/houses/{id}", "get"⟩ .get _ _ sharedByHouses
    ownOfHouses rfl rfl rfl rfl rfl
  refine ⟨effective, hexplore, hone.mpr (by decide), ?_⟩
  cases hexplore
  rfl

/-- A path that declares one pair twice keeps the second parameter of it, even
though the operation declares the pair as well. -/
theorem not_forall_onePerPair_explore :
    ¬ ∀ (d : Description) (target : OperationTarget) (method : Method) (item : PathItem)
        (operation : Operation) (shared own : List Parameter),
      Method.ofName? target.method = some method →
      Table.get? d.paths target.path = some item →
      item.operation? method = some operation →
      item.parameters = shared.map .inline → operation.parameters = own.map .inline →
      ∃ o, d.explore target = .ok o ∧ OnePerPair shared own o.parameters := by
  intro hall
  let shared := [houseParameter "id" .path "Number", houseParameter "id" .path "Key"]
  let own := [houseParameter "id" .path "House"]
  obtain ⟨o, ho, hone⟩ := hall (housePath shared own) ⟨"/houses/{id}", "get"⟩ .get _ _ shared own
    rfl rfl rfl rfl rfl
  cases ho
  exact absurd hone.pairs (by decide)

end OpenApi

end ProviderSchema
