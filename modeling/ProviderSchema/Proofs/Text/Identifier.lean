import Mathlib.Data.List.Basic
import ProviderSchema.Text.Identifier

/-!
# Identifiers of names

Whatever a name is made of, its identifier is one (`isIdentifier_identifier`).
The characters of the runs of a name are ASCII letters and digits, words take
their characters from runs, and in lower case these may stand in identifiers,
as may the underscores between words.  Only a digit may not come first, and
neither may nothing.
-/

namespace ProviderSchema.Text

/-! ## Characters -/

theorem toNat_lt_of_isAlphanum {c : Char} (h : c.isAlphanum = true) : c.toNat < 128 := by
  delta Char.isAlphanum Char.isAlpha Char.isUpper Char.isLower Char.isDigit at h
  simp only [Bool.or_eq_true, Bool.and_eq_true, decide_eq_true_eq, ge_iff_le,
    UInt32.le_iff_toNat_le] at h
  have hcapital : 'Z'.val.toNat = 90 := rfl
  have hsmall : 'z'.val.toNat = 122 := rfl
  have hdigit : '9'.val.toNat = 57 := rfl
  rw [Char.toNat]
  omega

/-- Letters and digits may stand in identifiers once they are small. -/
theorem isIdentifierChar_toLower {c : Char} (h : c.isAlphanum = true) :
    isIdentifierChar c.toLower = true := by
  have hascii : ∀ n < 128, (Char.ofNat n).isAlphanum = true →
      isIdentifierChar (Char.ofNat n).toLower = true := by decide
  have hc := hascii c.toNat (toNat_lt_of_isAlphanum h)
  rw [Char.ofNat_toNat] at hc
  exact hc h

theorem isAlphanum_of_mem_runsFrom {current text : List Char}
    (h : ∀ c ∈ current, c.isAlphanum = true) :
    ∀ run ∈ runsFrom current text, ∀ c ∈ run, c.isAlphanum = true := by
  induction text generalizing current with
  | nil =>
    intro run hrun
    rw [runsFrom] at hrun
    split at hrun
    · cases hrun
    · rw [List.mem_singleton] at hrun
      simpa [hrun] using h
  | cons c rest ih =>
    intro run hrun
    rw [runsFrom] at hrun
    split at hrun
    · rename_i hc
      exact ih (List.forall_mem_cons.mpr ⟨hc, h⟩) run hrun
    · split at hrun
      · exact ih (by simp) run hrun
      · rcases List.mem_cons.mp hrun with rfl | hrun
        · simpa using h
        · exact ih (by simp) run hrun

/-- Words have no other characters than the run that they are taken from. -/
theorem mem_of_mem_wordsFrom {known : LetterCase} {current run : List Char} :
    ∀ word ∈ wordsFrom known current run, ∀ c ∈ word, c ∈ current ∨ c ∈ run := by
  induction known, current, run using wordsFrom.induct with
  | case1 known current => simp [wordsFrom]
  | case2 known current c => simp [wordsFrom, or_comm]
  | case3 known current c next rest hsmall ih =>
    rw [wordsFrom, if_pos hsmall]
    grind
  | case4 known current c next rest hsmall hcapitals ih =>
    rw [wordsFrom, if_neg hsmall, if_pos hcapitals]
    grind
  | case5 known current c next rest hsmall hcapitals ih =>
    rw [wordsFrom, if_neg hsmall, if_neg hcapitals]
    grind

/-! ## Identifiers -/

theorem forall_mem_joinWords {P : Char → Prop} (hseparator : P '_') {words : List (List Char)}
    (h : ∀ word ∈ words, ∀ c ∈ word, P c) : ∀ c ∈ joinWords words, P c := by
  induction words with
  | nil => simp [joinWords]
  | cons word rest ih =>
    rw [List.forall_mem_cons] at h
    cases rest with
    | nil => exact h.1
    | cons next rest =>
      rw [joinWords]
      intro c hc
      rw [List.mem_append, List.mem_cons] at hc
      rcases hc with hc | rfl | hc
      · exact h.1 c hc
      · exact hseparator
      · exact ih h.2 c hc
      · simp

theorem isIdentifierChar_of_mem_joinWords (name : List Char) :
    ∀ c ∈ joinWords (words name), isIdentifierChar c = true := by
  refine forall_mem_joinWords (P := fun c => isIdentifierChar c = true) (by decide) ?_
  intro word hword c hc
  obtain ⟨run, hrun, hword⟩ := List.mem_flatMap.mp hword
  obtain ⟨letters, hletters, rfl⟩ := List.mem_map.mp hword
  obtain ⟨letter, hletter, rfl⟩ := List.mem_map.mp hc
  have hmem : letter ∈ run := by
    simpa using mem_of_mem_wordsFrom letters hletters letter hletter
  exact isIdentifierChar_toLower (isAlphanum_of_mem_runsFrom (by simp) run hrun letter hmem)

/-- Characters that may stand in identifiers make one, but for a digit in
front. -/
theorem isIdentifierChars_cons {c : Char} {rest : List Char}
    (h : ∀ d ∈ c :: rest, isIdentifierChar d = true) (hc : c.isDigit = false) :
    isIdentifierChars (c :: rest) = true := by
  rw [List.forall_mem_cons] at h
  have hfirst : (c.isLower || c = '_') = true := by simpa [isIdentifierChar, hc] using h.1
  rw [isIdentifierChars, hfirst, Bool.true_and, List.all_eq_true]
  exact h.2

/-- The identifier of any name is an identifier. -/
theorem isIdentifier_identifier (name : String) : isIdentifier (identifier name) = true := by
  have hchars := isIdentifierChar_of_mem_joinWords name.toList
  rw [isIdentifier, identifier, String.toList_ofList, identifierChars]
  split
  · decide
  · rename_i c rest hjoined
    rw [hjoined] at hchars
    split
    · exact isIdentifierChars_cons (List.forall_mem_cons.mpr ⟨by decide, hchars⟩) (by decide)
    · rename_i hdigit
      exact isIdentifierChars_cons hchars (by simpa using hdigit)

theorem ne_empty_of_isIdentifier {text : String} (h : isIdentifier text = true) : text ≠ "" := by
  rintro rfl
  cases h

end ProviderSchema.Text
