import ProviderSchema.Decimal.Literal

/-!
# Numerals

A natural number is read back from its decimal digits, and an integer from its
decimal text.
-/

namespace ProviderSchema.Decimal

theorem digit?_of_isDigit {c : Char} (h : c.isDigit = true) :
    digit? 10 c = some (c.toNat - '0'.toNat) := by
  obtain ⟨hlow, hhigh⟩ : '0' ≤ c ∧ c ≤ '9' := by
    simpa [Char.isDigit, Char.le_def] using h
  have hlt : c.toNat - '0'.toNat < 10 := by
    have hle : c.toNat ≤ '9'.toNat := hhigh
    have hnine : '9'.toNat = 57 := rfl
    have hzero : '0'.toNat = 48 := rfl
    omega
  rw [digit?, if_pos ⟨hlow, hhigh⟩, Option.bind_some, if_pos hlt]

/-- Digits complete the number that they stand for. -/
theorem naturalFrom?_of_isDigit {digits : List Char} (h : ∀ c ∈ digits, c.isDigit = true)
    (value : Nat) : naturalFrom? 10 value digits = some (Nat.ofDigitChars 10 digits value) := by
  induction digits generalizing value with
  | nil => rfl
  | cons c rest ih =>
    rw [List.forall_mem_cons] at h
    rw [naturalFrom?, digit?_of_isDigit h.1, Option.bind_some, ih h.2, Nat.ofDigitChars_cons,
      Nat.mul_comm]

theorem natural?_of_isDigit {digits : List Char} (hne : digits ≠ [])
    (h : ∀ c ∈ digits, c.isDigit = true) :
    natural? 10 digits = some (Nat.ofDigitChars 10 digits 0) := by
  cases digits with
  | nil => exact absurd rfl hne
  | cons c rest => exact naturalFrom?_of_isDigit h 0

theorem isDigit_of_mem_toDigits {n : Nat} {c : Char} (h : c ∈ Nat.toDigits 10 n) :
    c.isDigit = true :=
  Nat.isDigit_of_mem_toDigits (by decide) (Nat.le_refl 10) h

/-- A natural number is read back from its digits. -/
theorem natural?_toDigits (n : Nat) : natural? 10 (Nat.toDigits 10 n) = some n := by
  rw [natural?_of_isDigit Nat.toDigits_ne_nil fun c => isDigit_of_mem_toDigits,
    Nat.ofDigitChars_ten_toDigits]

theorem toList_toString_natural (n : Nat) : (toString n).toList = Nat.toDigits 10 n := by
  rw [Nat.toString_eq_ofList_toDigits, String.toList_ofList]

/-- The text of an integer is the digits of its size, after a minus sign if it is
negative. -/
theorem toList_toString_integer (n : Int) :
    (toString n).toList =
      if n < 0 then '-' :: Nat.toDigits 10 n.natAbs else Nat.toDigits 10 n.natAbs := by
  rw [Int.toString_eq_repr, Int.repr_eq_if]
  by_cases h : n < 0
  · have habs : (-n).toNat = n.natAbs := by omega
    rw [if_neg (by omega), if_pos h, habs, String.toList_append,
      Nat.repr_eq_ofList_toDigits, String.toList_ofList, String.toList_ofList]
    rfl
  · have habs : n.toNat = n.natAbs := by omega
    rw [if_pos (by omega), if_neg h, habs, Nat.repr_eq_ofList_toDigits, String.toList_ofList]

/-- An integer literal: digits, after a minus sign perhaps. -/
def integer? : List Char → Option Int
  | '-' :: digits => (natural? 10 digits).map fun n : Nat => -(n : Int)
  | digits => (natural? 10 digits).map fun n : Nat => (n : Int)

/-- Digits do not begin with a minus sign. -/
theorem integer?_of_isDigit {digits : List Char} (h : ∀ c ∈ digits, c.isDigit = true) :
    integer? digits = (natural? 10 digits).map fun n : Nat => (n : Int) := by
  unfold integer?
  split
  · exact absurd (h '-' List.mem_cons_self) (by decide)
  · rfl

/-- An integer is read back from its text. -/
theorem integer?_toString (n : Int) : integer? (toString n).toList = some n := by
  rw [toList_toString_integer]
  by_cases h : n < 0
  · have habs : -(n.natAbs : Int) = n := by omega
    rw [if_pos h, integer?, natural?_toDigits, Option.map_some, habs]
  · have habs : (n.natAbs : Int) = n := by omega
    rw [if_neg h, integer?_of_isDigit fun c => isDigit_of_mem_toDigits, natural?_toDigits,
      Option.map_some, habs]

end ProviderSchema.Decimal
