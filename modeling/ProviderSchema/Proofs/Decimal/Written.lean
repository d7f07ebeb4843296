import ProviderSchema.Decimal.Layout
import ProviderSchema.Proofs.Decimal.Numeral
import ProviderSchema.Proofs.Decimal.Shortest

/-!
# Numbers as they are written

`Denotes` says that a text is read as a decimal of some value.  Digits do, with a point
among them or an exponent after them, and so the two forms in which a number is
written denote the decimal that was found for it (`denotes_positional`,
`denotes_scientific`).  Whatever the layout, a number of the format is written as a
literal that is read as a finite number (`Layout.exists_ofLiteral?_text`).
-/

namespace ProviderSchema.Decimal

/-! ## Reading digits -/

theorem digitsValue_eq (digits : List Char) :
    digitsValue digits = Nat.ofDigitChars 10 digits 0 := by
  rw [digitsValue, Nat.ofDigitChars_eq_foldl]
  exact congrArg (fun f => digits.foldl f 0) (funext₂ fun n c => by rw [Nat.mul_comm])

/-- The end of a decimal: nothing, or an exponent. -/
inductive ExponentPart : List Char → Int → Prop where
  | absent : ExponentPart [] 0
  | present {digits : List Char} {exponent : Int} (h : exponent? digits = some exponent) :
      ExponentPart ('e' :: digits) exponent

variable {whole fraction tail : List Char} {exponent : Int}

theorem ExponentPart.takeWhile_eq (h : ExponentPart tail exponent) :
    tail.takeWhile Char.isDigit = [] ∧ tail.dropWhile Char.isDigit = tail := by
  cases h with
  | absent => exact ⟨rfl, rfl⟩
  | present _ => exact ⟨rfl, rfl⟩

theorem ofUnsigned?_whole (hne : whole ≠ []) (hwhole : ∀ c ∈ whole, c.isDigit = true)
    (htail : ExponentPart tail exponent) (negative : Bool) :
    Binary64.ofUnsigned? negative (whole ++ tail) =
      some (.ofDecimal negative (Nat.ofDigitChars 10 whole 0) exponent) := by
  obtain ⟨htake, hdrop⟩ := htail.takeWhile_eq
  unfold Binary64.ofUnsigned?
  rw [List.takeWhile_append_of_pos hwhole, List.dropWhile_append_of_pos hwhole, htake, hdrop]
  cases htail with
  | absent => simp [hne, digitsValue_eq]
  | present h => simp [hne, digitsValue_eq, h]

theorem ofUnsigned?_point (hne : whole ≠ []) (hwhole : ∀ c ∈ whole, c.isDigit = true)
    (hfraction : ∀ c ∈ fraction, c.isDigit = true) (htail : ExponentPart tail exponent)
    (negative : Bool) :
    Binary64.ofUnsigned? negative (whole ++ '.' :: (fraction ++ tail)) =
      some (.ofDecimal negative (Nat.ofDigitChars 10 (whole ++ fraction) 0)
        (exponent - fraction.length)) := by
  obtain ⟨htake, hdrop⟩ := htail.takeWhile_eq
  have hpoint : ('.' :: (fraction ++ tail)).takeWhile Char.isDigit = [] ∧
      ('.' :: (fraction ++ tail)).dropWhile Char.isDigit = '.' :: (fraction ++ tail) := ⟨rfl, rfl⟩
  unfold Binary64.ofUnsigned?
  rw [List.takeWhile_append_of_pos hwhole, List.dropWhile_append_of_pos hwhole, hpoint.1,
    hpoint.2, List.append_nil]
  simp only [List.takeWhile_append_of_pos hfraction, List.dropWhile_append_of_pos hfraction, htake,
    hdrop, List.append_nil]
  cases htail with
  | absent => simp [hne, digitsValue_eq]
  | present h => simp [hne, digitsValue_eq, h]

/-- A text is a decimal of some value. -/
def Denotes (text : List Char) (value : ℚ) : Prop :=
  ∀ negative, ∃ (significand : Nat) (exponent : Int),
    Binary64.ofUnsigned? negative text = some (.ofDecimal negative significand exponent) ∧
      (significand : ℚ) * 10 ^ exponent = value

theorem denotes_whole (whole : List Char) (hne : whole ≠ [])
    (hwhole : ∀ c ∈ whole, c.isDigit = true)
    (htail : ExponentPart tail exponent) :
    Denotes (whole ++ tail) (Nat.ofDigitChars 10 whole 0 * 10 ^ exponent) := fun negative =>
  ⟨_, _, ofUnsigned?_whole hne hwhole htail negative, rfl⟩

theorem denotes_point (whole fraction : List Char) (hne : whole ≠ [])
    (hwhole : ∀ c ∈ whole, c.isDigit = true)
    (hfraction : ∀ c ∈ fraction, c.isDigit = true) (htail : ExponentPart tail exponent) :
    Denotes (whole ++ '.' :: (fraction ++ tail))
      (Nat.ofDigitChars 10 (whole ++ fraction) 0 * 10 ^ (exponent - fraction.length)) :=
  fun negative => ⟨_, _, ofUnsigned?_point hne hwhole hfraction htail negative, rfl⟩

/-! ## Writing numbers -/

variable {digits : List Char} {point : Int}

theorem isDigit_of_mem_replicate {n : Nat} {c : Char} (h : c ∈ List.replicate n '0') :
    c.isDigit = true := by
  rw [List.eq_of_mem_replicate h]
  rfl

/-- Digits with zeros up to the point, and one after it. -/
theorem denotes_padded (hne : digits ≠ []) (hdigits : ∀ c ∈ digits, c.isDigit = true) (n : Nat) :
    Denotes (digits ++ List.replicate n '0' ++ '.' :: ['0'])
      (Nat.ofDigitChars 10 digits 0 * 10 ^ (n : Int)) := by
  have hwhole : ∀ c ∈ digits ++ List.replicate n '0', c.isDigit = true := fun c hc =>
    (List.mem_append.mp hc).elim (hdigits c) isDigit_of_mem_replicate
  have hdenotes := denotes_point _ ['0'] (by simp [hne]) hwhole (by simp) .absent
  have hlast : ∀ m : Nat, Nat.ofDigitChars 10 ['0'] m = 10 * m := fun m => by
    rw [Nat.ofDigitChars_cons, Nat.ofDigitChars_nil]
    exact Nat.add_zero _
  have hvalue : (Nat.ofDigitChars 10 digits 0 : ℚ) * 10 ^ (n : Int) =
      (10 * (10 ^ n * Nat.ofDigitChars 10 digits 0) : Nat) * 10 ^ ((0 : Int) - ['0'].length) := by
    rw [zpow_natCast]
    push_cast
    rw [List.length_singleton, Nat.cast_one, zero_sub, zpow_neg_one]
    ring
  rwa [Nat.ofDigitChars_append, Nat.ofDigitChars_append, Nat.ofDigitChars_replicate_zero, hlast,
    ← hvalue, List.append_nil] at hdenotes

/-- Digits with a point before, among or after them. -/
theorem denotes_positional (hne : digits ≠ []) (hdigits : ∀ c ∈ digits, c.isDigit = true) :
    Denotes (positional digits point)
      (Nat.ofDigitChars 10 digits 0 * 10 ^ (point - digits.length)) := by
  rw [positional]
  split
  · rename_i hpoint
    have hzeros : ∀ c ∈ List.replicate point.natAbs '0' ++ digits, c.isDigit = true := fun c hc =>
      (List.mem_append.mp hc).elim isDigit_of_mem_replicate (hdigits c)
    have hdenotes := denotes_point ['0'] _ (by simp) (by simp) hzeros .absent
    have hexponent : (0 : Int) - (List.replicate point.natAbs '0' ++ digits).length =
        point - digits.length := by
      rw [List.length_append, List.length_replicate]
      omega
    rw [hexponent, Nat.ofDigitChars_append, Nat.ofDigitChars_append,
      Nat.ofDigitChars_replicate_zero, List.append_nil] at hdenotes
    exact hdenotes
  · rename_i hpoint
    obtain ⟨n, rfl⟩ : ∃ n : Nat, point = n := ⟨point.natAbs, by omega⟩
    dsimp only
    rw [Int.natAbs_natCast]
    split
    · rename_i hafter
      have hle : digits.length ≤ n := List.drop_eq_nil_iff.mp hafter
      have hzeros : (n : Int) - digits.length = (n - digits.length : Nat) := by omega
      rw [List.take_of_length_le hle, hzeros]
      exact denotes_padded hne hdigits _
    · rename_i hafter
      have hlt : n < digits.length := Nat.lt_of_not_le (mt List.drop_eq_nil_iff.mpr hafter)
      have hlength : (digits.take n).length = n := List.length_take_of_le hlt.le
      have hdenotes := denotes_point (digits.take n) (digits.drop n)
        (by rw [← List.length_pos_iff]; omega) (fun c hc => hdigits c (List.mem_of_mem_take hc))
        (fun c hc => hdigits c (List.mem_of_mem_drop hc)) .absent
      have hexponent : (0 : Int) - (digits.drop n).length = n - digits.length := by
        rw [List.length_drop]
        omega
      rw [hexponent, List.take_append_drop, List.append_nil] at hdenotes
      rwa [hlength, Nat.sub_self, List.replicate_zero, List.append_nil]

theorem exponentPart_scientific (plus : Bool) (exponent : Int) :
    ExponentPart ('e' :: ((if exponent < 0 then ['-'] else if plus then ['+'] else []) ++
      Nat.toDigits 10 exponent.natAbs)) exponent := by
  refine .present ?_
  have hdigits : ∀ c ∈ Nat.toDigits 10 exponent.natAbs, c.isDigit = true := fun c =>
    isDigit_of_mem_toDigits
  split
  · have habs : -(exponent.natAbs : Int) = exponent := by omega
    rw [List.singleton_append, exponent?, natural?_toDigits]
    exact congrArg some habs
  · have habs : (exponent.natAbs : Int) = exponent := by omega
    split
    · rw [List.singleton_append, exponent?, natural?_toDigits]
      exact congrArg some habs
    · rw [List.nil_append]
      unfold exponent?
      split
      · rename_i hsign
        exact absurd (hdigits '-' (hsign ▸ List.mem_cons_self)) (by decide)
      · rename_i hsign
        exact absurd (hdigits '+' (hsign ▸ List.mem_cons_self)) (by decide)
      · rw [natural?_toDigits]
        exact congrArg some habs

/-- Digits with a point after the first one, and an exponent. -/
theorem denotes_scientific (hne : digits ≠ []) (hdigits : ∀ c ∈ digits, c.isDigit = true)
    (plus : Bool) :
    Denotes (scientific plus digits point)
      (Nat.ofDigitChars 10 digits 0 * 10 ^ (point - digits.length)) := by
  have hlast := exponentPart_scientific plus (point - 1)
  cases digits with
  | nil => exact absurd rfl hne
  | cons d rest =>
    rw [List.forall_mem_cons] at hdigits
    have hfirst : ∀ c ∈ [d], c.isDigit = true := by simpa using hdigits.1
    unfold scientific
    cases rest with
    | nil => exact denotes_whole _ (by simp) hfirst hlast
    | cons d' rest =>
      have hexponent : point - 1 - (d' :: rest).length = point - (d :: d' :: rest).length := by
        simp only [List.length_cons]
        omega
      have hdenotes := denotes_point _ _ (by simp) hfirst hdigits.2 hlast
      rw [hexponent] at hdenotes
      exact hdenotes

/-! ## Literals -/

variable {text : List Char} {value : ℚ}

/-- A decimal without a sign does not begin with one. -/
theorem Denotes.ofLiteral? (h : Denotes text value) :
    Binary64.ofLiteral? text = Binary64.ofUnsigned? false text := by
  unfold Binary64.ofLiteral?
  split
  · obtain ⟨_, _, hread, -⟩ := h false
    cases hread
  · obtain ⟨_, _, hread, -⟩ := h false
    cases hread
  · rfl

/-- A decimal below the range is read as a finite number, with a sign as without. -/
theorem exists_ofLiteral?_of_denotes (h : ∃ value, Denotes text value ∧ value < Binary64.overflow)
    (negative : Bool) :
    ∃ x, Binary64.ofLiteral? (if negative then '-' :: text else text) = some x ∧
      x.isFinite = true := by
  obtain ⟨value, hdenotes, hvalue⟩ := h
  obtain ⟨significand, exponent, hread, rfl⟩ := hdenotes negative
  refine ⟨_, ?_, Binary64.isFinite_ofDecimal negative hvalue⟩
  cases negative with
  | true => exact hread
  | false => exact hdenotes.ofLiteral?.trans hread

theorem denotes_toDigits (n : Nat) : Denotes (Nat.toDigits 10 n) n := by
  have hdenotes := denotes_whole (Nat.toDigits 10 n) Nat.toDigits_ne_nil
    (fun c => isDigit_of_mem_toDigits) .absent
  rwa [Nat.ofDigitChars_ten_toDigits, List.append_nil, zpow_zero, mul_one] at hdenotes

/-- An integer below the range is a literal. -/
theorem exists_ofLiteral?_toString {n : Int} (h : n.natAbs < Binary64.overflow) :
    ∃ x, Binary64.ofLiteral? (toString n).toList = some x ∧ x.isFinite = true := by
  have hread := exists_ofLiteral?_of_denotes ⟨_, denotes_toDigits n.natAbs, Nat.cast_lt.mpr h⟩
    (decide (n < 0))
  rw [toList_toString_integer]
  simpa using hread

/-- What is written for a number of the format is a literal of a finite number. -/
theorem Layout.exists_ofLiteral?_text (l : Layout) {negative : Bool} {significand : Nat}
    {exponent : Int} (h : (Binary64.finite negative significand exponent).InFormat) :
    ∃ x, Binary64.ofLiteral? (l.text (.finite negative significand exponent)).toList = some x ∧
      x.isFinite = true := by
  rw [text, String.toList_ofList]
  refine exists_ofLiteral?_of_denotes ?_ negative
  split
  · have hdenotes : Denotes ['0', '.', '0'] _ :=
      denotes_point ['0'] ['0'] (by simp) (by simp) (by simp) .absent
    have hzero : Nat.ofDigitChars 10 (['0'] ++ ['0']) 0 = 0 := by decide
    rw [hzero, Nat.cast_zero, zero_mul] at hdenotes
    exact ⟨0, hdenotes, Nat.cast_pos.mpr Binary64.overflow_pos⟩
  · have hbelow := shortest_lt_overflow h l.tie
    obtain ⟨d, hd⟩ : ∃ d, d = shortest l.tie significand exponent := ⟨_, rfl⟩
    rw [← hd] at hbelow ⊢
    have hne : Nat.toDigits 10 d.digits ≠ [] := Nat.toDigits_ne_nil
    have hdigits : ∀ c ∈ Nat.toDigits 10 d.digits, c.isDigit = true := fun c =>
      isDigit_of_mem_toDigits
    have hvalue : (Nat.ofDigitChars 10 (Nat.toDigits 10 d.digits) 0 : ℚ) *
        10 ^ ((Nat.toDigits 10 d.digits).length + d.exponent - (Nat.toDigits 10 d.digits).length) <
          Binary64.overflow := by
      rwa [add_sub_cancel_left, Nat.ofDigitChars_ten_toDigits]
    dsimp only
    split
    · exact ⟨_, denotes_positional hne hdigits, hvalue⟩
    · exact ⟨_, denotes_scientific hne hdigits _, hvalue⟩

/-! ## The characters of a number -/

/-- A character that numbers are written with. -/
def IsNumberChar (c : Char) : Prop := c.isDigit = true ∨ c ∈ ['.', 'e', '+', '-']

instance (c : Char) : Decidable (IsNumberChar c) := inferInstanceAs (Decidable (_ ∨ _))

theorem isNumberChar_positional (hdigits : ∀ c ∈ digits, c.isDigit = true) :
    ∀ c ∈ positional digits point, IsNumberChar c := by
  intro c hc
  rw [positional] at hc
  split at hc
  · rw [List.mem_cons, List.mem_cons, List.mem_append] at hc
    obtain rfl | rfl | hc | hc := hc
    · exact .inl (by decide)
    · exact .inr (by decide)
    · exact .inl (isDigit_of_mem_replicate hc)
    · exact .inl (hdigits c hc)
  · dsimp only at hc
    rw [List.mem_append, List.mem_append, List.mem_cons] at hc
    obtain (hc | hc) | rfl | hc := hc
    · exact .inl (hdigits c (List.mem_of_mem_take hc))
    · exact .inl (isDigit_of_mem_replicate hc)
    · exact .inr (by decide)
    · split at hc
      · exact .inl (List.mem_singleton.mp hc ▸ (by decide))
      · exact .inl (hdigits c (List.mem_of_mem_drop hc))

theorem isNumberChar_scientific (hdigits : ∀ c ∈ digits, c.isDigit = true) (plus : Bool) :
    ∀ c ∈ scientific plus digits point, IsNumberChar c := by
  intro c hc
  unfold scientific at hc
  dsimp only at hc
  rw [List.mem_append, List.mem_cons, List.mem_append] at hc
  obtain hc | rfl | hc | hc := hc
  · split at hc
    · cases hc
    · exact .inl (hdigits c hc)
    · rw [List.forall_mem_cons] at hdigits
      rw [List.mem_cons, List.mem_cons] at hc
      obtain rfl | rfl | hc := hc
      · exact .inl hdigits.1
      · exact .inr (by decide)
      · exact .inl (hdigits.2 c hc)
  · exact .inr (by decide)
  · refine .inr ?_
    split at hc
    · obtain rfl := List.mem_singleton.mp hc
      decide
    · split at hc
      · obtain rfl := List.mem_singleton.mp hc
        decide
      · cases hc
  · exact .inl (isDigit_of_mem_toDigits hc)

theorem isNumberChar_sign (text : List Char) (htext : ∀ c ∈ text, IsNumberChar c)
    (negative : Bool) :
    ∀ c ∈ (if negative then '-' :: text else text), IsNumberChar c := by
  cases negative with
  | true => exact List.forall_mem_cons.mpr ⟨.inr (by decide), htext⟩
  | false => exact htext

theorem Layout.isNumberChar_text (l : Layout) (negative : Bool) (significand : Nat)
    (exponent : Int) :
    ∀ c ∈ (l.text (.finite negative significand exponent)).toList, IsNumberChar c := by
  have hdigits : ∀ c ∈ Nat.toDigits 10 (shortest l.tie significand exponent).digits,
      c.isDigit = true := fun c => isDigit_of_mem_toDigits
  rw [text, String.toList_ofList]
  refine isNumberChar_sign _ ?_ negative
  split
  · simp [IsNumberChar]
  · dsimp only
    split
    · exact isNumberChar_positional hdigits
    · exact isNumberChar_scientific hdigits _

end ProviderSchema.Decimal
