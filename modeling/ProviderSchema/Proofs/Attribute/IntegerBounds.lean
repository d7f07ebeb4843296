import ProviderSchema.Node.Validators
import ProviderSchema.Proofs.Attribute.Snippet
import ProviderSchema.Proofs.Decimal.Value

/-!
# The bounds of integers

A bound may have a fraction and may be any finite number, but the validator of an
integer is called with integers of 64 bits.  The call that is written is read back here
(`Snippet.integerBounds?`), and the integers of 64 bits that it admits are compared with
those that the exact bounds admit.

They are the same but for the ends of the range (`integerBounds_admit_iff`): a lower bound
beyond the largest integer is written as that integer and admits it, and an upper bound
beyond the smallest integer admits that one.
-/

namespace ProviderSchema

open Decimal (Binary64 IsInt64 clampedInteger maxInt64 minInt64)
open OpenApi (Keywords)

/-! ## The bounds that are written -/

/-- What a call asks of integers. -/
structure IntegerBounds where
  least : Option Int
  greatest : Option Int
deriving DecidableEq, Repr

/-- An integer is within the bounds. -/
def IntegerBounds.Admit (b : IntegerBounds) (n : Int) : Prop :=
  (∀ least ∈ b.least, least ≤ n) ∧ ∀ greatest ∈ b.greatest, n ≤ greatest

/-- The bounds of integers that a call sets, if it is one of the three that set any. -/
def Snippet.integerBounds? (s : Snippet) : Option IntegerBounds :=
  if s.package = "int64validator" then
    match s.function, s.arguments.map fun a => Decimal.integer? a.toList with
    | "AtLeast", [some least] => some ⟨some least, none⟩
    | "AtMost", [some greatest] => some ⟨none, some greatest⟩
    | "Between", [some least, some greatest] => some ⟨some least, some greatest⟩
    | _, _ => none
  else none

/-! ## The bounds that are meant -/

namespace OpenApi.Keywords

/-- The lower bound of a number. -/
def least? (k : Keywords) : Option ℚ := k.minimum.bind Binary64.value?

/-- The upper bound of a number. -/
def greatest? (k : Keywords) : Option ℚ := k.maximum.bind Binary64.value?

/-- An integer is within the exact bounds. -/
def AdmitsInteger (k : Keywords) (n : Int) : Prop :=
  (∀ least ∈ k.least?, least ≤ n) ∧ ∀ greatest ∈ k.greatest?, (n : ℚ) ≤ greatest

end OpenApi.Keywords

variable {k : Keywords}

/-- Bounds make one rule, and the call that is written for integers has the bounds
rounded inward. -/
theorem exists_integerBounds (hsome : k.minimum ≠ none ∨ k.maximum ≠ none) :
    ∃ rule, k.range = [rule] ∧
      (Snippet.read? (Validator.definition ⟨.int64, rule⟩)).bind Snippet.integerBounds? =
        some ⟨k.minimum.map (clampedInteger Binary64.ceil),
          k.maximum.map (clampedInteger Binary64.floor)⟩ := by
  have hlower (x : Binary64) : Snippet.Sealed (Validator.lower .int64 x).toList ∧
      Decimal.integer? (Validator.lower .int64 x).toList = some (clampedInteger Binary64.ceil x) :=
    ⟨Snippet.sealed_integer _, Decimal.integer?_toString _⟩
  have hupper (x : Binary64) : Snippet.Sealed (Validator.upper .int64 x).toList ∧
      Decimal.integer? (Validator.upper .int64 x).toList = some (clampedInteger Binary64.floor x) :=
    ⟨Snippet.sealed_integer _, Decimal.integer?_toString _⟩
  unfold OpenApi.Keywords.range
  cases hmin : k.minimum with
  | none =>
    cases hmax : k.maximum with
    | none => simp [hmin, hmax] at hsome
    | some max =>
      refine ⟨.atMost max, rfl, ?_⟩
      rw [Snippet.read?_definition (by simpa [Validator.call] using (hupper max).1)]
      simp [Snippet.integerBounds?, Validator.call, ValidatorTarget.package, hupper]
  | some min =>
    cases hmax : k.maximum with
    | none =>
      refine ⟨.atLeast min, rfl, ?_⟩
      rw [Snippet.read?_definition (by simpa [Validator.call] using (hlower min).1)]
      simp [Snippet.integerBounds?, Validator.call, ValidatorTarget.package, hlower]
    | some max =>
      refine ⟨.between min max, rfl, ?_⟩
      rw [Snippet.read?_definition (by
        simpa [Validator.call] using And.intro (hlower min).1 (hupper max).1)]
      simp [Snippet.integerBounds?, Validator.call, ValidatorTarget.package, hlower, hupper]

/-! ## The comparison -/

/-- The bounds that are written admit the integers of 64 bits that the exact bounds admit,
and the ends of the range whatever the bound on their side is. -/
theorem admit_iff (hmin : ∀ x, k.minimum = some x → x.isFinite = true)
    (hmax : ∀ x, k.maximum = some x → x.isFinite = true) {n : Int} (hn : IsInt64 n) :
    IntegerBounds.Admit ⟨k.minimum.map (clampedInteger Binary64.ceil),
        k.maximum.map (clampedInteger Binary64.floor)⟩ n ↔
      (∀ least ∈ k.least?, least ≤ n ∨ n = maxInt64) ∧
        ∀ greatest ∈ k.greatest?, n ≤ greatest ∨ n = minInt64 := by
  have hvalue : ∀ {x : Binary64}, x.isFinite = true → ∃ q, x.value? = some q := fun h =>
    Option.isSome_iff_exists.mp ((Binary64.isSome_value? _).trans h)
  refine and_congr ?_ ?_
  · rw [OpenApi.Keywords.least?]
    cases hx : k.minimum with
    | none => simp
    | some x =>
      obtain ⟨q, hq⟩ := hvalue (hmin x hx)
      simp [hq, Decimal.clampedInteger_ceil_le_iff hq hn]
  · rw [OpenApi.Keywords.greatest?]
    cases hx : k.maximum with
    | none => simp
    | some x =>
      obtain ⟨q, hq⟩ := hvalue (hmax x hx)
      simp [hq, Decimal.le_clampedInteger_floor_iff hq hn]

/-- Bounds that admit the ends of the range in any case admit the same integers as the
exact bounds, unless an end is admitted that lies beyond the bound on its side and within
the other one. -/
theorem forall_admitsInteger_iff :
    (∀ n, IsInt64 n → ((∀ least ∈ k.least?, least ≤ n ∨ n = maxInt64) ∧
        (∀ greatest ∈ k.greatest?, n ≤ greatest ∨ n = minInt64) ↔ k.AdmitsInteger n)) ↔
      ¬ ((∃ least ∈ k.least?, (maxInt64 : ℚ) < least) ∧
          ∀ greatest ∈ k.greatest?, (maxInt64 : ℚ) ≤ greatest) ∧
        ¬ ((∃ greatest ∈ k.greatest?, greatest < (minInt64 : ℚ)) ∧
          ∀ least ∈ k.least?, least ≤ (minInt64 : ℚ)) := by
  have hlt := Decimal.minInt64_lt_maxInt64
  constructor
  · intro h
    constructor
    · rintro ⟨⟨least, hleast, hbeyond⟩, hgreatest⟩
      have hadmits := (h maxInt64 ⟨hlt.le, le_refl _⟩).mp
        ⟨fun _ _ => .inr rfl, fun g hg => .inl (hgreatest g hg)⟩
      exact absurd (hadmits.1 least hleast) (not_le.mpr hbeyond)
    · rintro ⟨⟨greatest, hgreatest, hbeyond⟩, hleast⟩
      have hadmits := (h minInt64 ⟨le_refl _, hlt.le⟩).mp
        ⟨fun l hl => .inl (hleast l hl), fun _ _ => .inr rfl⟩
      exact absurd (hadmits.2 greatest hgreatest) (not_le.mpr hbeyond)
  · rintro ⟨hmax, hmin⟩ n -
    refine ⟨fun ⟨hleast, hgreatest⟩ => ⟨fun l hl => ?_, fun g hg => ?_⟩, fun h =>
      ⟨fun l hl => .inl (h.1 l hl), fun g hg => .inl (h.2 g hg)⟩⟩
    · rcases hleast l hl with hle | rfl
      · exact hle
      · by_contra hbeyond
        exact hmax ⟨⟨l, hl, not_le.mp hbeyond⟩,
          fun g hg => (hgreatest g hg).resolve_right hlt.ne'⟩
    · rcases hgreatest g hg with hle | rfl
      · exact hle
      · by_contra hbeyond
        exact hmin ⟨⟨g, hg, not_le.mp hbeyond⟩, fun l hl => (hleast l hl).resolve_right hlt.ne⟩

/-- Finite bounds of integers are written as one call, and of the integers of 64 bits it
admits those that the exact bounds admit, and the ends of the range whatever the bound on
their side is.  So it admits the same unless the lower bound lies beyond the largest
integer, which the other bound admits, or the upper bound beyond the smallest one. -/
theorem integerBounds_admit_iff (k : Keywords)
    (hmin : ∀ x, k.minimum = some x → x.isFinite = true)
    (hmax : ∀ x, k.maximum = some x → x.isFinite = true)
    (hsome : k.minimum ≠ none ∨ k.maximum ≠ none) :
    ∃ rule bounds, k.rules .int64 = k.enumeration Json.isInteger ++ [rule] ∧
      (Snippet.read? (Validator.definition ⟨.int64, rule⟩)).bind Snippet.integerBounds? =
        some bounds ∧
      (∀ n, IsInt64 n → (bounds.Admit n ↔
        (∀ least ∈ k.least?, least ≤ n ∨ n = maxInt64) ∧
          ∀ greatest ∈ k.greatest?, n ≤ greatest ∨ n = minInt64)) ∧
      ((∀ n, IsInt64 n → (bounds.Admit n ↔ k.AdmitsInteger n)) ↔
        ¬ ((∃ least ∈ k.least?, (maxInt64 : ℚ) < least) ∧
            ∀ greatest ∈ k.greatest?, (maxInt64 : ℚ) ≤ greatest) ∧
          ¬ ((∃ greatest ∈ k.greatest?, greatest < (minInt64 : ℚ)) ∧
            ∀ least ∈ k.least?, least ≤ (minInt64 : ℚ))) := by
  obtain ⟨rule, hrule, hread⟩ := exists_integerBounds hsome
  have hiff := fun n (hn : IsInt64 n) => admit_iff hmin hmax hn
  refine ⟨rule, _, by rw [OpenApi.Keywords.rules, hrule], hread, hiff, ?_⟩
  rw [← forall_admitsInteger_iff]
  exact forall₂_congr fun n hn => iff_congr (hiff n hn) Iff.rfl

/-- Marks from 1.5 to 9.5. -/
def markKeywords : Keywords :=
  { minimum := some (.ofDecimal false 15 (-1)), maximum := some (.ofDecimal false 95 (-1)) }

theorem integerBounds_admit_iff_markKeywords :
    ∃ rule bounds, markKeywords.rules .int64 = [rule] ∧
      (Snippet.read? (Validator.definition ⟨.int64, rule⟩)).bind Snippet.integerBounds? =
        some bounds ∧
      ∀ n, IsInt64 n → (bounds.Admit n ↔
        (∀ least ∈ markKeywords.least?, least ≤ n ∨ n = maxInt64) ∧
          ∀ greatest ∈ markKeywords.greatest?, n ≤ greatest ∨ n = minInt64) := by
  obtain ⟨rule, bounds, hrule, hread, hiff, -⟩ := integerBounds_admit_iff markKeywords
    (by rintro x ⟨⟩; decide +kernel) (by rintro x ⟨⟩; decide +kernel)
    (.inl (by simp [markKeywords]))
  exact ⟨rule, bounds, hrule, hread, hiff⟩

/-- At least `10 ^ 19`, which is more than any integer of 64 bits. -/
def hugeKeywords : Keywords := { minimum := some (.ofDecimal false 1 19) }

/-- The call that is written for it admits an integer. -/
theorem hugeKeywords_admit_maxInt64 :
    ∃ rule bounds, hugeKeywords.rules .int64 = [rule] ∧
      (Snippet.read? (Validator.definition ⟨.int64, rule⟩)).bind Snippet.integerBounds? =
        some bounds ∧
      IsInt64 maxInt64 ∧ bounds.Admit maxInt64 ∧ ¬ hugeKeywords.AdmitsInteger maxInt64 := by
  obtain ⟨rule, hrule, hread⟩ := exists_integerBounds (k := hugeKeywords) (.inl (by
    simp [hugeKeywords]))
  refine ⟨rule, _, by rw [OpenApi.Keywords.rules, hrule]; rfl, hread,
    ⟨Decimal.minInt64_lt_maxInt64.le, le_refl _⟩, ⟨?_, by simp [hugeKeywords]⟩, fun h => ?_⟩
  · rintro _ ⟨⟩
    exact (Decimal.isInt64_clampedInteger _ _).2
  · have hbound : Binary64.ofDecimal false 1 19 = .finite false 4882812500000000 11 := by
      decide +kernel
    have hmax : maxInt64 = 9223372036854775807 := by decide
    have hle := h.1 (Binary64.valueOf false 4882812500000000 11) (by
      simp [OpenApi.Keywords.least?, hugeKeywords, hbound, Binary64.value?])
    rw [Binary64.valueOf, hmax] at hle
    norm_num at hle

end ProviderSchema
