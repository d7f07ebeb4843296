import ProviderSchema.Node.Validators
import ProviderSchema.Proofs.Attribute.Snippet
import ProviderSchema.Proofs.Decimal.Value
import ProviderSchema.Proofs.Decimal.Written
import ProviderSchema.Proofs.Json.QuotedText
import ProviderSchema.Proofs.OpenApi.DecodedNumbers

/-!
# The literals of validators

A call takes literals of one kind: integers of 64 bits, finite numbers, quoted texts or
sizes, depending on its package and its function (`LiteralKind.ofCall`).  The call
that is written for a rule has literals of that kind as its arguments, if the rule is
one that can be written so (`ValidatorRule.Fits`).

Rules of decoded schemas are, with two exceptions (`decoded_validators_accepted_iff`):
an enumeration of integers may have one that does not fit 64 bits with a sign, and the
bounds of numbers may be infinite or no numbers.
-/

namespace ProviderSchema

open Decimal (Binary64 IsInt64 IsNumberChar boundLayout maxInt64 minInt64 valueLayout)
open OpenApi (Keywords)

/-! ## Literals -/

/-- The kinds of literals that calls take. -/
inductive LiteralKind where
  | integer
  | number
  | text
  | size
deriving DecidableEq, Repr

/-- A text is a literal of a kind: an integer of 64 bits, a finite number, a text between
quotes, or a number without a sign. -/
def LiteralKind.Accepts (text : List Char) : LiteralKind → Prop
  | .integer => ∃ n, Decimal.integer? text = some n ∧ IsInt64 n
  | .number => ∃ x, Binary64.ofLiteral? text = some x ∧ x.isFinite = true
  | .text => ∃ value, Json.quotedText? text = some value
  | .size => ∃ n, Decimal.natural? 10 text = some n

/-- The kind of literals that a function of a package takes. -/
def LiteralKind.ofCall (package function : String) : LiteralKind :=
  if function ∈ ["OneOf", "AtLeast", "AtMost", "Between"] then
    if package = "int64validator" then .integer
    else if package = "float64validator" then .number
    else .text
  else .size

/-- All arguments of a call are literals of the kind that it takes. -/
def Snippet.Accepted (s : Snippet) : Prop :=
  ∀ argument ∈ s.arguments, (LiteralKind.ofCall s.package s.function).Accepts argument.toList

/-! ## Arguments -/

/-- A text is an argument, and a literal of a kind if something holds. -/
structure IsArgument (kind : LiteralKind) (fits : Prop) (text : String) : Prop where
  taken : Snippet.Sealed text.toList
  accepts_iff : kind.Accepts text.toList ↔ fits

theorem isArgument_size (n : Nat) : IsArgument .size True (toString n) :=
  ⟨Snippet.sealed_natural n, iff_true_intro ⟨n, by
    rw [Decimal.toList_toString_natural, Decimal.natural?_toDigits]⟩⟩

theorem isArgument_integer (n : Int) : IsArgument .integer (IsInt64 n) (toString n) := by
  refine ⟨Snippet.sealed_integer n, ?_⟩
  rw [LiteralKind.Accepts, Decimal.integer?_toString]
  simp

theorem isArgument_text (value : String) : IsArgument .text True (Json.Quoted.quote value) := by
  rw [Json.Quoted.quote]
  refine ⟨?_, iff_true_intro ⟨value, ?_⟩⟩
  · rw [String.toList_ofList]
    exact Snippet.sealed_encode _
  · rw [String.toList_ofList, Json.quotedText?_encode, String.ofList_toList]

theorem plain_of_isNumberChar {c : Char} (h : IsNumberChar c) : c ≠ '"' ∧ c ≠ ',' ∧ c ≠ ' ' := by
  refine ⟨?_, ?_, ?_⟩ <;> (rintro rfl; exact absurd h (by decide))

/-- A finite number is a literal in any layout. -/
theorem isArgument_finite (l : Decimal.Layout) {negative : Bool} {significand : Nat}
    {exponent : Int} (h : (Binary64.finite negative significand exponent).InFormat) :
    IsArgument .number True (l.text (.finite negative significand exponent)) := by
  have hread := l.exists_ofLiteral?_text h
  refine ⟨Snippet.Plain.sealed ⟨fun hnil => ?_, fun c hc => ?_⟩, iff_true_intro hread⟩
  · obtain ⟨x, hx, -⟩ := hread
    rw [hnil] at hx
    cases hx
  · exact plain_of_isNumberChar (l.isNumberChar_text _ _ _ c hc)

/-- A bound is a literal if it is finite. -/
theorem isArgument_bound {x : Binary64} (h : x.InFormat) :
    IsArgument .number (x.isFinite = true) (boundLayout.text x) := by
  have hword : ∀ word : String, word.toList ≠ [] →
      (∀ c ∈ word.toList, c ≠ '"' ∧ c ≠ ',' ∧ c ≠ ' ') →
      Binary64.ofLiteral? word.toList = none → IsArgument .number (false = true) word := by
    intro word hne hplain hnone
    refine ⟨Snippet.Plain.sealed ⟨hne, hplain⟩, ?_⟩
    rw [LiteralKind.Accepts, hnone]
    simp
  cases x with
  | nan => exact hword "NaN" (by decide) (by simp) (by decide)
  | infinite negative =>
    cases negative with
    | false => exact hword "inf" (by decide) (by simp) (by decide)
    | true => exact hword "-inf" (by decide) (by simp) (by decide)
  | finite negative significand exponent =>
    exact ⟨(isArgument_finite boundLayout h).taken,
      (isArgument_finite boundLayout h).accepts_iff.trans (iff_of_true trivial rfl)⟩

/-- A bound of either kind of numbers. -/
theorem isArgument_of_target {target : ValidatorTarget}
    (htarget : target = .int64 ∨ target = .float64) {x : Binary64} (h : x.InFormat)
    (round : Bool → Nat → Int → Int) :
    IsArgument (.ofCall target.package "AtLeast") (target = .float64 → x.isFinite = true)
      (Validator.bound target round x) := by
  rcases htarget with rfl | rfl
  · have hargument := isArgument_integer (Decimal.clampedInteger round x)
    exact ⟨hargument.taken, hargument.accepts_iff.trans
      (iff_of_true (Decimal.isInt64_clampedInteger round x) (by simp))⟩
  · have hargument := isArgument_bound h
    exact ⟨hargument.taken, hargument.accepts_iff.trans (by simp)⟩

/-- The integers of texts are literals of numbers as well. -/
theorem isArgument_wholeNumber {n : Int} (h : minInt64 ≤ n ∧ n < Int.pow 2 64) :
    IsArgument .number True (toString n) := by
  have hmin : minInt64 = -9223372036854775808 := by decide
  have hmax : Int.pow 2 64 = 18446744073709551616 := by decide
  have hrange : 18446744073709551616 ≤ Binary64.overflow := by decide +kernel
  rw [hmin, hmax] at h
  exact ⟨Snippet.sealed_integer n,
    iff_true_intro (Decimal.exists_ofLiteral?_toString (by omega))⟩

/-! ## Rules -/

namespace ValidatorRule

/-- A rule can be written with the literals that are taken for a kind of values. -/
def Fits (target : ValidatorTarget) : ValidatorRule → Prop
  | .oneOf values => target = .int64 → ∀ n, .integer n ∈ values → n ≤ maxInt64
  | .atLeast min => target = .float64 → min.isFinite = true
  | .atMost max => target = .float64 → max.isFinite = true
  | .between min max => target = .float64 → min.isFinite = true ∧ max.isFinite = true
  | _ => True

/-- The call for a rule has arguments, and they are literals of the kind that is taken
if the rule fits. -/
structure IsWritten (target : ValidatorTarget) (rule : ValidatorRule) : Prop where
  taken : ∀ t ∈ (Validator.call target rule).2, Snippet.Sealed t.toList
  accepts_iff : (∀ t ∈ (Validator.call target rule).2,
    (LiteralKind.ofCall target.package (Validator.call target rule).1).Accepts t.toList) ↔
      rule.Fits target

/-- The sizes in a rule about sizes. -/
def sizes? : ValidatorRule → Option (List Nat)
  | .lengthAtLeast min | .sizeAtLeast min => some [min]
  | .lengthAtMost max | .sizeAtMost max => some [max]
  | .lengthBetween min max | .sizeBetween min max => some [min, max]
  | .uniqueValues => some []
  | _ => none

variable {target : ValidatorTarget} {rule : ValidatorRule}

theorem isWritten_of_sizes? {sizes : List Nat} (h : rule.sizes? = some sizes) :
    IsWritten target rule := by
  have hcall : (Validator.call target rule).2 = sizes.map toString ∧
      LiteralKind.ofCall target.package (Validator.call target rule).1 = .size ∧
        rule.Fits target := by
    cases rule <;> cases h <;> exact ⟨rfl, by simp [LiteralKind.ofCall, Validator.call], trivial⟩
  obtain ⟨hargs, hkind, hfits⟩ := hcall
  constructor
  · rw [hargs, List.forall_mem_map]
    exact fun n _ => (isArgument_size n).taken
  · rw [hargs, hkind, List.forall_mem_map, iff_true_right hfits]
    exact fun n _ => (isArgument_size n).accepts_iff.mpr trivial

theorem mem_bounded {α : Type} {atLeast atMost : α → ValidatorRule}
    {between : α → α → ValidatorRule} {min max : Option α}
    (h : rule ∈ bounded atLeast atMost between min max) :
    (∃ a, min = some a ∧ rule = atLeast a) ∨ (∃ b, max = some b ∧ rule = atMost b) ∨
      ∃ a b, min = some a ∧ max = some b ∧ rule = between a b := by
  unfold bounded at h
  split at h
  · exact .inr (.inr ⟨_, _, rfl, rfl, List.mem_singleton.mp h⟩)
  · exact .inl ⟨_, rfl, List.mem_singleton.mp h⟩
  · exact .inr (.inl ⟨_, rfl, List.mem_singleton.mp h⟩)
  · cases h

theorem isWritten_of_mem_range {k : Keywords} (hk : k.NumbersInRange)
    (htarget : target = .int64 ∨ target = .float64) (h : rule ∈ k.range) :
    IsWritten target rule := by
  have hbetween : LiteralKind.ofCall target.package "Between" =
      .ofCall target.package "AtLeast" := by simp [LiteralKind.ofCall]
  have hatMost : LiteralKind.ofCall target.package "AtMost" =
      .ofCall target.package "AtLeast" := by simp [LiteralKind.ofCall]
  have hlower : ∀ a, k.minimum = some a → IsArgument (.ofCall target.package "AtLeast")
      (target = .float64 → a.isFinite = true) (Validator.lower target a) := fun a ha =>
    isArgument_of_target htarget (hk.minimum a ha) Binary64.ceil
  have hupper : ∀ b, k.maximum = some b → IsArgument (.ofCall target.package "AtLeast")
      (target = .float64 → b.isFinite = true) (Validator.upper target b) := fun b hb =>
    isArgument_of_target htarget (hk.maximum b hb) Binary64.floor
  obtain ⟨a, ha, rfl⟩ | ⟨b, hb, rfl⟩ | ⟨a, b, ha, hb, rfl⟩ := mem_bounded h
  · exact ⟨by simpa [Validator.call] using (hlower a ha).taken,
      by simpa [Validator.call, Fits] using (hlower a ha).accepts_iff⟩
  · exact ⟨by simpa [Validator.call] using (hupper b hb).taken,
      by simpa [Validator.call, Fits, hatMost] using (hupper b hb).accepts_iff⟩
  · refine ⟨by simpa [Validator.call] using And.intro (hlower a ha).taken (hupper b hb).taken, ?_⟩
    have hboth := and_congr (hlower a ha).accepts_iff (hupper b hb).accepts_iff
    rw [← forall_and] at hboth
    simpa [Validator.call, Fits, hbetween] using hboth

/-- An enumeration whose values are arguments. -/
theorem isWritten_oneOf {values : List Json} (fits : Json → Prop)
    (hvalues : ∀ v ∈ values,
      IsArgument (.ofCall target.package "OneOf") (fits v) (Json.compact v))
    (hfits : (∀ v ∈ values, fits v) ↔ (ValidatorRule.oneOf values).Fits target) :
    IsWritten target (.oneOf values) := by
  constructor
  · rw [Validator.call, List.forall_mem_map]
    exact fun v hv => (hvalues v hv).taken
  · rw [Validator.call, List.forall_mem_map, ← hfits]
    exact forall₂_congr fun v hv => (hvalues v hv).accepts_iff

theorem eq_of_mem_enumeration {k : Keywords} {accepts : Json → Bool}
    (h : rule ∈ k.enumeration accepts) : rule = .oneOf (k.enum.filter accepts) := by
  unfold OpenApi.Keywords.enumeration at h
  dsimp only at h
  split at h
  · cases h
  · exact List.mem_singleton.mp h

theorem isWritten_texts (k : Keywords) (h : rule ∈ k.enumeration Json.isText) :
    IsWritten .string rule := by
  rw [eq_of_mem_enumeration h]
  refine isWritten_oneOf (fun _ => True) (fun v hv => ?_) (by simp [Fits])
  have htext := (List.mem_filter.mp hv).2
  cases v with
  | text value => exact isArgument_text value
  | _ => cases htext

theorem isWritten_integers {k : Keywords} (hk : k.NumbersInRange)
    (h : rule ∈ k.enumeration Json.isInteger) : IsWritten .int64 rule := by
  rw [eq_of_mem_enumeration h]
  refine isWritten_oneOf (fun v => ∀ n, v = .integer n → IsInt64 n) (fun v hv => ?_) ?_
  · have hinteger := (List.mem_filter.mp hv).2
    cases v with
    | integer n =>
      have hargument := isArgument_integer n
      exact ⟨hargument.taken, hargument.accepts_iff.trans (by simp)⟩
    | _ => cases hinteger
  · simp only [Fits, forall_const]
    constructor
    · exact fun hfits n hn => (hfits _ hn n rfl).2
    · rintro hmax v hv n rfl
      exact ⟨(hk.integer n (List.mem_filter.mp hv).1).1, hmax n hv⟩

theorem isWritten_numbers {k : Keywords} (hk : k.NumbersInRange)
    (h : rule ∈ k.enumeration Json.isNumber) : IsWritten .float64 rule := by
  rw [eq_of_mem_enumeration h]
  refine isWritten_oneOf (fun _ => True) (fun v hv => ?_) (by simp [Fits])
  obtain ⟨hmem, hnumber⟩ := List.mem_filter.mp hv
  cases v with
  | integer n => exact isArgument_wholeNumber (hk.integer n hmem)
  | float x =>
    obtain ⟨hfinite, hformat⟩ := hk.float x hmem
    cases x with
    | finite negative significand exponent => exact isArgument_finite valueLayout hformat
    | _ => cases hfinite
  | _ => cases hnumber

/-- The rules of schemas with such numbers are written as calls, and with literals if the
rule fits. -/
theorem isWritten_of_mem_rules {k : Keywords} (hk : k.NumbersInRange)
    (h : rule ∈ k.rules target) : IsWritten target rule := by
  have hsizes : ∀ {target : ValidatorTarget}, (∃ sizes, rule.sizes? = some sizes) →
      IsWritten target rule := fun ⟨_, h⟩ => isWritten_of_sizes? h
  cases target with
  | string =>
    rcases List.mem_append.mp h with h | h
    · exact isWritten_texts k h
    · obtain ⟨a, -, rfl⟩ | ⟨b, -, rfl⟩ | ⟨a, b, -, -, rfl⟩ := mem_bounded h
      all_goals exact hsizes ⟨_, rfl⟩
  | int64 =>
    rcases List.mem_append.mp h with h | h
    · exact isWritten_integers hk h
    · exact isWritten_of_mem_range hk (.inl rfl) h
  | float64 =>
    rcases List.mem_append.mp h with h | h
    · exact isWritten_numbers hk h
    · exact isWritten_of_mem_range hk (.inr rfl) h
  | list =>
    rcases List.mem_append.mp h with h | h
    · obtain ⟨a, -, rfl⟩ | ⟨b, -, rfl⟩ | ⟨a, b, -, -, rfl⟩ := mem_bounded h
      all_goals exact hsizes ⟨_, rfl⟩
    · split at h
      · obtain rfl := List.mem_singleton.mp h
        exact hsizes ⟨_, rfl⟩
      · cases h
  | set =>
    obtain ⟨a, -, rfl⟩ | ⟨b, -, rfl⟩ | ⟨a, b, -, -, rfl⟩ := mem_bounded h
    all_goals exact hsizes ⟨_, rfl⟩
  | map =>
    obtain ⟨a, -, rfl⟩ | ⟨b, -, rfl⟩ | ⟨a, b, -, -, rfl⟩ := mem_bounded h
    all_goals exact hsizes ⟨_, rfl⟩

end ValidatorRule

/-! ## Validators -/

/-- The definition of a validator of a decoded schema is a call of its package, and the
arguments are literals that the call takes, unless one is an integer of an enumeration
that does not fit 64 bits with a sign, or a bound of numbers that is not finite. -/
theorem decoded_validators_accepted_iff {k : Keywords} {c : OpenApi.Children OpenApi.Schema}
    (h : OpenApi.Schema.Decoded (.inline k c)) (target : ValidatorTarget) :
    ∀ v ∈ k.validators target, ∃ snippet, Snippet.read? v.definition = some snippet ∧
      snippet.package = target.package ∧ (snippet.Accepted ↔ v.rule.Fits target) := by
  intro v hv
  obtain ⟨rule, hrule, rfl⟩ := List.mem_map.mp hv
  have hwritten := ValidatorRule.isWritten_of_mem_rules h.numbersInRange hrule
  exact ⟨_, Snippet.read?_definition hwritten.taken, rfl, hwritten.accepts_iff⟩

/-- The JSON text of a schema with two values and a bound. -/
def gradeText : String :=
  (Json.object [
    ("type", .text "number"),
    ("enum", .array [.integer 1, .float (.ofRatio false 5 2)]),
    ("minimum", .float (.ofRatio false 1 2))]).compact

theorem decoded_validators_accepted_iff_gradeText :
    ∃ k c, OpenApi.Schema.readInline .json gradeText = .ok (k, c) ∧
      (k.validators .float64).map Validator.definition =
        ["float64validator.OneOf(1, 2.5)", "float64validator.AtLeast(0.5)"] ∧
      ∀ v ∈ k.validators .float64, ∃ snippet, Snippet.read? v.definition = some snippet ∧
        snippet.package = "float64validator" ∧ (snippet.Accepted ↔ v.rule.Fits .float64) := by
  have hread : ((OpenApi.Schema.readInline .json gradeText).toOption.map fun r =>
      (r.1.validators .float64).map Validator.definition) =
        some ["float64validator.OneOf(1, 2.5)", "float64validator.AtLeast(0.5)"] := by
    decide +kernel
  obtain ⟨⟨k, c⟩, hok, hdefinitions⟩ := exists_ok_of_toOption_map_eq_some hread
  exact ⟨k, c, hok, hdefinitions, decoded_validators_accepted_iff (.inline hok .here) .float64⟩

/-- The JSON text of a schema with two values, one of them the largest integer of
64 bits without a sign. -/
def mostText : String :=
  (Json.object [
    ("type", .text "integer"),
    ("enum", .array [.integer 1, .integer 18446744073709551615])]).compact

/-- The second value is no integer that the call takes. -/
theorem mostText_validator_not_accepted :
    ∃ k c, OpenApi.Schema.readInline .json mostText = .ok (k, c) ∧
      ∃ v ∈ k.validators .int64, v.definition = "int64validator.OneOf(1, 18446744073709551615)" ∧
        ∃ snippet, Snippet.read? v.definition = some snippet ∧ ¬ snippet.Accepted := by
  have hread : ((OpenApi.Schema.readInline .json mostText).toOption.map fun r =>
      (r.1.validators .int64).map Validator.definition) =
        some ["int64validator.OneOf(1, 18446744073709551615)"] := by
    decide +kernel
  obtain ⟨⟨k, c⟩, hok, hdefinitions⟩ := exists_ok_of_toOption_map_eq_some hread
  obtain ⟨v, hv, hdefinition⟩ : ∃ v ∈ k.validators .int64,
      v.definition = "int64validator.OneOf(1, 18446744073709551615)" :=
    List.mem_map.mp (hdefinitions ▸ List.mem_singleton_self _)
  refine ⟨k, c, hok, v, hv, hdefinition,
    ⟨"int64validator", "OneOf", ["1", "18446744073709551615"]⟩, ?_, fun haccepted => ?_⟩
  · rw [hdefinition]
    decide +kernel
  · have hvalue : Decimal.integer? "18446744073709551615".toList =
        some 18446744073709551615 := by decide
    obtain ⟨n, hn, hrange⟩ : LiteralKind.integer.Accepts "18446744073709551615".toList :=
      haccepted "18446744073709551615" (by simp)
    obtain rfl : 18446744073709551615 = n := Option.some_inj.mp (hvalue.symm.trans hn)
    exact absurd hrange.2 (by decide)

end ProviderSchema
