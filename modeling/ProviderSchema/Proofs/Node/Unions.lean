import ProviderSchema.Proofs.Node.Wrapped

/-!
# Unions of two schemas

A union of two is written as `anyOf` or as `oneOf`, with its members in either order.
How it is written does not count, unless both members are strings: then it stands for the
first of them.

`Branch.Survivor` lists what may be left of two members.  A union has a node exactly if its
members leave one, and the node is what they leave, with the description of the union if it
has one (`Schema.nodeAt_union_eq_ok_iff`).  So whatever is known of the survivors of
two members is known of unions, and `Schema.nodeAt_union_swap` follows from
`Survivor.swap`.  The members are any schemas: unions themselves, wrappers, or `null`.
-/

namespace ProviderSchema

open OpenApi

/-! ## Survivors -/

namespace Branch

/-- Of two members of a union a node is left: the one beside `null`, or the string beside
what may be passed as text.  Of two strings it is the first one. -/
inductive Survivor : Branch → Branch → Node → Prop where
  | beforeNull (n : Node) : Survivor (.node n) .null n
  | afterNull (n : Node) : Survivor .null (.node n) n
  | text {n m : Node} (string : n.facts.kind = .string)
      (other : m.facts.kind ∈ [SchemaKind.string, .integer, .number, .boolean]) :
      Survivor (.node n) (.node m) n
  | textAfter {n m : Node} (string : m.facts.kind = .string)
      (other : n.facts.kind ∈ [SchemaKind.integer, .number, .boolean]) :
      Survivor (.node n) (.node m) m

/-- Both members are strings. -/
def Strings (a b : Branch) : Prop := a.kind? = some .string ∧ b.kind? = some .string

/-- The survivor is found by the kinds of the members. -/
theorem survivor_pick_eq_ok_iff {a b : Branch} {n : Node} :
    (survivor a.kind? b.kind?).map (Side.pick a b) = .ok (.node n) ↔ Survivor a b n := by
  constructor
  · intro h
    cases a with
    | null => cases h; exact .afterNull n
    | node m =>
      cases b with
      | null => cases h; exact .beforeNull n
      | node m' =>
        dsimp only [kind?, survivor] at h
        split at h
        · rename_i hkinds
          cases h
          obtain ⟨hstring, hother⟩ := by simpa using hkinds
          refine .text hstring ?_
          revert hother
          cases m'.facts.kind <;> decide
        · split at h
          · rename_i hnot hkinds
            cases h
            obtain ⟨hstring, hother⟩ := by simpa using hkinds
            refine .textAfter hstring ?_
            revert hother hnot
            rw [hstring]
            cases m.facts.kind <;> decide
          · cases h
  · intro h
    cases h with
    | beforeNull => rfl
    | afterNull => rfl
    | @text _ m hstring hother =>
      dsimp only [kind?, survivor]
      revert hother
      rw [hstring]
      cases m.facts.kind <;> simp [SchemaKind.isStringable, Except.map, Side.pick]
    | @textAfter m _ hstring hother =>
      dsimp only [kind?, survivor]
      revert hother
      rw [hstring]
      cases m.facts.kind <;> simp [SchemaKind.isStringable, Except.map, Side.pick]

namespace Survivor

variable {a b : Branch} {n m : Node}

/-- Of members in the other order the same node is left, but of two strings the other
one. -/
theorem swap (h : Survivor a b n) :
    ∃ m, Survivor b a m ∧ (¬ Strings a b → m = n) ∧ (Strings a b → a = .node n ∧ b = .node m) := by
  cases h with
  | beforeNull => exact ⟨n, .afterNull n, fun _ => rfl, fun h => by cases h.2⟩
  | afterNull => exact ⟨n, .beforeNull n, fun _ => rfl, fun h => by cases h.1⟩
  | @text _ m hstring hother =>
    by_cases hm : m.facts.kind = .string
    · refine ⟨m, .text hm (by rw [hstring]; decide), fun hnot => ?_, fun _ => ⟨rfl, rfl⟩⟩
      exact absurd ⟨congrArg some hstring, congrArg some hm⟩ hnot
    · refine ⟨n, .textAfter hstring ?_, fun _ => rfl, fun h => absurd (Option.some.inj h.2) hm⟩
      simpa [hm] using hother
  | @textAfter m _ hstring hother =>
    refine ⟨n, .text hstring (List.mem_cons_of_mem _ hother), fun _ => rfl, fun h => ?_⟩
    rw [Option.some.inj h.1] at hother
    exact absurd hother (by decide)

end Survivor

theorem ofPair_eq_ok_node_iff {x y : Except SchemaError Branch} {n : Node} :
    ofPair x y = .ok (.node n) ↔ ∃ a b, x = .ok a ∧ y = .ok b ∧ Survivor a b n := by
  rw [ofPair_eq_bind]
  rcases x with _ | a
  · simp [Except.bind]
  rcases y with _ | b
  · simp [Except.bind]
  · change (survivor a.kind? b.kind?).map (Side.pick a b) = .ok (.node n) ↔ _
    rw [survivor_pick_eq_ok_iff]
    simp

end Branch

/-! ## Unions -/

/-- The keyword that a union is written with. -/
inductive UnionKeyword where
  | anyOf
  | oneOf
deriving DecidableEq, Repr

namespace OpenApi.Schema

/-- A union of two members, with keywords and with child schemas that are no composition
beside it. -/
def union (keywords : Keywords) (beside : Children Schema) (keyword : UnionKeyword)
    (first second : Schema) : Schema :=
  match keyword with
  | .anyOf => .inline keywords { beside with allOf := [], anyOf := [first, second], oneOf := [] }
  | .oneOf => .inline keywords { beside with allOf := [], anyOf := [], oneOf := [first, second] }

/-- The node of a schema, some steps below the root and at a location. -/
def nodeAt (depth : Nat) (location : List String) (s : Schema) : Except SchemaError Node :=
  (branch depth location s).bind Branch.toNode

variable {keywords : Keywords} {beside : Children Schema} {keyword : UnionKeyword}
  {x y : Schema} {depth : Nat} {location : List String} {n : Node}

theorem le_maxSchemaDepth_of_branch_eq_ok {s : Schema} {b : Branch}
    (h : branch depth location s = .ok b) : depth ≤ maxSchemaDepth := by
  by_contra hdeep
  rw [branch_of_lt (Nat.lt_of_not_le hdeep)] at h
  cases h

/-- The branch of a union is what its members leave, whichever keyword it is written
with. -/
theorem branch_union (hdepth : depth ≤ maxSchemaDepth) :
    branch depth location (union keywords beside keyword x y) =
      (Branch.ofPair (branch (depth + 1) (keywords.location location) x)
        (branch (depth + 1) (keywords.location location) y)).map
          (Branch.describedBy keywords.description) := by
  cases keyword with
  | anyOf => exact branch_inline hdepth location keywords _
  | oneOf => exact branch_inline hdepth location keywords _

theorem describedBy_eq_node_iff {description : Option String} {b : Branch} :
    b.describedBy description = .node n ↔ ∃ m, b = .node m ∧ n = m.describedBy description := by
  cases b with
  | null => simp [Branch.describedBy]
  | node m => simp [Branch.describedBy, eq_comm]

/-- A union has a node exactly if a node is left of its members, which are one step deeper,
and is that node with its own description. -/
theorem nodeAt_union_eq_ok_iff :
    nodeAt depth location (union keywords beside keyword x y) = .ok n ↔
      ∃ a b m, branch (depth + 1) (keywords.location location) x = .ok a ∧
        branch (depth + 1) (keywords.location location) y = .ok b ∧
          Branch.Survivor a b m ∧ n = m.describedBy keywords.description := by
  unfold nodeAt
  rw [Branch.bind_toNode_eq_ok_iff]
  constructor
  · intro h
    rw [branch_union (le_maxSchemaDepth_of_branch_eq_ok h), map_eq_ok_iff] at h
    obtain ⟨left, hleft, hdescribed⟩ := h
    obtain ⟨m, rfl, rfl⟩ := describedBy_eq_node_iff.mp hdescribed
    obtain ⟨a, b, ha, hb, hsurvivor⟩ := Branch.ofPair_eq_ok_node_iff.mp hleft
    exact ⟨a, b, m, ha, hb, hsurvivor, rfl⟩
  · rintro ⟨a, b, m, ha, hb, hsurvivor, rfl⟩
    have hdepth := Nat.le_of_succ_le (le_maxSchemaDepth_of_branch_eq_ok ha)
    have hleft := Branch.ofPair_eq_ok_node_iff.mpr ⟨a, b, ha, hb, hsurvivor⟩
    rw [branch_union hdepth, hleft]
    rfl

/-- The keyword makes no difference, not even to the error if there is one. -/
theorem nodeAt_union_keyword (keyword' : UnionKeyword) :
    nodeAt depth location (union keywords beside keyword x y) =
      nodeAt depth location (union keywords beside keyword' x y) := by
  unfold nodeAt
  rcases Nat.lt_or_ge maxSchemaDepth depth with hdeep | hdepth
  · rw [branch_of_lt hdeep, branch_of_lt hdeep]
  · rw [branch_union hdepth, branch_union hdepth]

/-- Both schemas stand for strings. -/
def BothStrings (depth : Nat) (location : List String) (x y : Schema) : Prop :=
  ∃ a b, branch depth location x = .ok a ∧ branch depth location y = .ok b ∧ Branch.Strings a b

/-- What a union has for a node if its members are listed in the other order. -/
theorem exists_nodeAt_union_swap
    (h : nodeAt depth location (union keywords beside keyword x y) = .ok n) :
    ∃ m, nodeAt depth location (union keywords beside keyword y x) = .ok m ∧
      (¬ BothStrings (depth + 1) (keywords.location location) x y → m = n) ∧
      (BothStrings (depth + 1) (keywords.location location) x y →
        ∃ first second, branch (depth + 1) (keywords.location location) x = .ok (.node first) ∧
          branch (depth + 1) (keywords.location location) y = .ok (.node second) ∧
          n = first.describedBy keywords.description ∧
          m = second.describedBy keywords.description) := by
  obtain ⟨a, b, first, ha, hb, hsurvivor, rfl⟩ := nodeAt_union_eq_ok_iff.mp h
  obtain ⟨second, hswapped, hsame, hstrings⟩ := hsurvivor.swap
  refine ⟨second.describedBy keywords.description,
    nodeAt_union_eq_ok_iff.mpr ⟨b, a, second, hb, ha, hswapped, rfl⟩, fun hnot => ?_, ?_⟩
  · rw [hsame fun hboth => hnot ⟨a, b, ha, hb, hboth⟩]
  · rintro ⟨a', b', ha', hb', hboth⟩
    rw [ha] at ha'
    rw [hb] at hb'
    cases ha'
    cases hb'
    obtain ⟨rfl, rfl⟩ := hstrings hboth
    exact ⟨first, second, ha, hb, rfl, rfl⟩

/-- How a union of two schemas is written does not count.  It has a node in all four forms
or in none, and then it has the same node in all of them, unless both members are strings:
then it has that of the first one listed.  The node is always that of a member, which the
other one is `null` beside, or which is a string and the other one may be passed as text. -/
theorem nodeAt_union_swap (keywords : Keywords) (beside : Children Schema) (x y : Schema)
    (depth : Nat) (location : List String) :
    (∀ keyword keyword' : UnionKeyword,
      nodeAt depth location (union keywords beside keyword x y) =
          nodeAt depth location (union keywords beside keyword' x y) ∧
        ((∃ n, nodeAt depth location (union keywords beside keyword x y) = .ok n) ↔
          ∃ n, nodeAt depth location (union keywords beside keyword' y x) = .ok n)) ∧
      (∀ (keyword keyword' : UnionKeyword) (n m : Node),
        nodeAt depth location (union keywords beside keyword x y) = .ok n →
        nodeAt depth location (union keywords beside keyword' y x) = .ok m →
          (¬ BothStrings (depth + 1) (keywords.location location) x y → n = m) ∧
          (BothStrings (depth + 1) (keywords.location location) x y →
            ∃ first second,
              branch (depth + 1) (keywords.location location) x = .ok (.node first) ∧
              branch (depth + 1) (keywords.location location) y = .ok (.node second) ∧
              n = first.describedBy keywords.description ∧
              m = second.describedBy keywords.description)) ∧
      ∀ (keyword : UnionKeyword) (n : Node),
        nodeAt depth location (union keywords beside keyword x y) = .ok n ↔
          ∃ a b m, branch (depth + 1) (keywords.location location) x = .ok a ∧
            branch (depth + 1) (keywords.location location) y = .ok b ∧
              Branch.Survivor a b m ∧ n = m.describedBy keywords.description := by
  refine ⟨fun keyword keyword' => ⟨nodeAt_union_keyword keyword', ?_⟩, ?_,
    fun keyword n => nodeAt_union_eq_ok_iff⟩
  · rw [nodeAt_union_keyword keyword']
    constructor
    · rintro ⟨n, hn⟩
      obtain ⟨m, hm, -⟩ := exists_nodeAt_union_swap hn
      exact ⟨m, hm⟩
    · rintro ⟨n, hn⟩
      obtain ⟨m, hm, -⟩ := exists_nodeAt_union_swap hn
      exact ⟨m, hm⟩
  · intro keyword keyword' n m hn hm
    rw [nodeAt_union_keyword keyword'] at hn
    obtain ⟨m', hm', hsame, hstrings⟩ := exists_nodeAt_union_swap hn
    rw [hm] at hm'
    cases hm'
    exact ⟨fun hnot => (hsame hnot).symm, hstrings⟩

/-- A text in a format. -/
def textSchema (format : String) : Schema :=
  .inline { type := some (.single .string), format := some format } {}

/-- A whole number. -/
def integerSchema : Schema := .inline { type := some (.single .integer) } {}

/-- A date or a number is a date, however it is written; a date or a time is what is listed
first. -/
theorem nodeAt_union_swap_dates :
    (∃ n, n.facts.format = some "date" ∧ ∀ keyword,
        nodeAt 0 [] (union {} {} keyword (textSchema "date") integerSchema) = .ok n ∧
          nodeAt 0 [] (union {} {} keyword integerSchema (textSchema "date")) = .ok n) ∧
      ∃ date time, date.facts.format = some "date" ∧ time.facts.format = some "time" ∧
        nodeAt 0 [] (union {} {} .anyOf (textSchema "date") (textSchema "time")) = .ok date ∧
          nodeAt 0 [] (union {} {} .anyOf (textSchema "time") (textSchema "date")) = .ok time := by
  have hformats (format format' : String) : (nodeAt 0 []
      (union {} {} .anyOf (textSchema format) (textSchema format'))).toOption.map
        (fun n => n.facts.format) = some (some format) := rfl
  constructor
  · obtain ⟨hall, hsame, -⟩ := nodeAt_union_swap {} {} (textSchema "date") integerSchema 0 []
    obtain ⟨n, hn, hdate⟩ := exists_ok_of_toOption_map_eq_some
      (show (nodeAt 0 [] (union {} {} .anyOf (textSchema "date") integerSchema)).toOption.map
        (fun n => n.facts.format) = some (some "date") from rfl)
    have hnot : ¬ BothStrings 1 [] (textSchema "date") integerSchema := by
      rintro ⟨_, b, -, hb, -, hstring⟩
      cases hb
      cases hstring
    refine ⟨n, hdate, fun keyword => ?_⟩
    have hlisted := (hall keyword .anyOf).1.trans hn
    obtain ⟨m, hm⟩ := (hall keyword keyword).2.mp ⟨n, hlisted⟩
    rw [hlisted, hm, (hsame keyword keyword n m hlisted hm).1 hnot]
    exact ⟨rfl, rfl⟩
  · obtain ⟨date, hdate, hfirst⟩ := exists_ok_of_toOption_map_eq_some (hformats "date" "time")
    obtain ⟨time, htime, hsecond⟩ := exists_ok_of_toOption_map_eq_some (hformats "time" "date")
    exact ⟨date, time, hfirst, hsecond, hdate, htime⟩

end OpenApi.Schema

end ProviderSchema
