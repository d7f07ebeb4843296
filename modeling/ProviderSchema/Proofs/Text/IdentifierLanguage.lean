import Mathlib.Computability.Language
import Mathlib.Dynamics.FixedPoints.Basic
import ProviderSchema.Proofs.Text.Identifier

/-!
# The language of the identifiers of names

Identifiers of names make a regular language, `identifierLanguage`: one or more words of
small letters and digits, with an underscore between them, and one in front if the first
character would be a digit.  It is smaller than that of all identifiers, as no underscore
stands at the end or beside another one.

A name is taken apart into words (`isWord_of_mem_words`) and the words are written one
after the other (`spelled`).  What is written is taken apart into the same words again
(`words_spelled`), because nothing in a word is a capital at which it could end, and the
underscore in front is no part of a word.  So the identifier of an identifier of a name is
that identifier, and the texts that are their own identifiers are those of the language
(`identifier_projection`).
-/

namespace ProviderSchema.Text

open Computability

/-! ## Words -/

/-- Whether a character may stand in a word. -/
def isWordChar (c : Char) : Bool := c.isLower || c.isDigit

/-- Characters that make a word: small letters and digits, at least one. -/
def IsWord (word : List Char) : Prop := word ≠ [] ∧ ∀ c ∈ word, isWordChar c = true

/-- Letters and digits may stand in words once they are small. -/
theorem isWordChar_toLower {c : Char} (h : c.isAlphanum = true) : isWordChar c.toLower = true := by
  have hascii : ∀ n < 128, (Char.ofNat n).isAlphanum = true →
      isWordChar (Char.ofNat n).toLower = true := by decide
  have hc := hascii c.toNat (toNat_lt_of_isAlphanum h)
  rw [Char.ofNat_toNat] at hc
  exact hc h

theorem isAlphanum_of_isWordChar {c : Char} (h : isWordChar c = true) : c.isAlphanum = true := by
  unfold isWordChar at h
  unfold Char.isAlphanum Char.isAlpha
  grind

/-- In a word nothing is a capital, so nothing changes once it is small. -/
theorem isUpper_and_toLower_of_isWordChar {c : Char} (h : isWordChar c = true) :
    c.isUpper = false ∧ c.toLower = c := by
  have hascii : ∀ n < 128, isWordChar (Char.ofNat n) = true →
      (Char.ofNat n).isUpper = false ∧ (Char.ofNat n).toLower = Char.ofNat n := by decide
  have hc := hascii c.toNat (toNat_lt_of_isAlphanum (isAlphanum_of_isWordChar h))
  rw [Char.ofNat_toNat] at hc
  exact hc h

/-- No word of a run is empty, as a word that ends before a capital has one already. -/
theorem ne_nil_of_mem_wordsFrom {known : LetterCase} {current run : List Char}
    (h : known = .upper → current ≠ []) : ∀ word ∈ wordsFrom known current run, word ≠ [] := by
  induction known, current, run using wordsFrom.induct with
  | case1 known current => simp [wordsFrom]
  | case2 known current c => simp [wordsFrom]
  | case3 known current c next rest hsmall ih =>
    rw [wordsFrom, if_pos hsmall, List.forall_mem_cons]
    exact ⟨by simp, ih (by simp)⟩
  | case4 known current c next rest hsmall hcapitals ih =>
    rw [wordsFrom, if_neg hsmall, if_pos hcapitals, List.forall_mem_cons]
    exact ⟨by simpa using h hcapitals.1, ih (by simp)⟩
  | case5 known current c next rest hsmall hcapitals ih =>
    rw [wordsFrom, if_neg hsmall, if_neg hcapitals]
    exact ih (by simp)

/-- A name is taken apart into words. -/
theorem isWord_of_mem_words (name : List Char) : ∀ word ∈ words name, IsWord word := by
  intro word hword
  obtain ⟨run, hrun, hword⟩ := List.mem_flatMap.mp hword
  obtain ⟨letters, hletters, rfl⟩ := List.mem_map.mp hword
  refine ⟨?_, fun c hc => ?_⟩
  · have hne := ne_nil_of_mem_wordsFrom (by simp) letters hletters
    simpa using hne
  · obtain ⟨letter, hletter, rfl⟩ := List.mem_map.mp hc
    have hmem : letter ∈ run := by
      simpa using mem_of_mem_wordsFrom letters hletters letter hletter
    exact isWordChar_toLower (isAlphanum_of_mem_runsFrom (by simp) run hrun letter hmem)

/-! ## Taking joined words apart -/

theorem runsFrom_append {word : List Char} (h : ∀ c ∈ word, c.isAlphanum = true)
    (current rest : List Char) :
    runsFrom current (word ++ rest) = runsFrom (word.reverse ++ current) rest := by
  induction word generalizing current with
  | nil => rfl
  | cons c word ih =>
    rw [List.forall_mem_cons] at h
    rw [List.cons_append, runsFrom, if_pos h.1, ih h.2, List.reverse_cons, List.append_assoc]
    rfl

/-- The runs of joined words are the words. -/
theorem runs_joinWords {ws : List (List Char)} (h : ∀ word ∈ ws, IsWord word) :
    runs (joinWords ws) = ws := by
  induction ws with
  | nil => rfl
  | cons word rest ih =>
    rw [List.forall_mem_cons] at h
    obtain ⟨⟨hne, hchars⟩, hrest⟩ := h
    have hruns := runsFrom_append fun c hc => isAlphanum_of_isWordChar (hchars c hc)
    unfold runs
    cases rest with
    | nil =>
      rw [joinWords, ← List.append_nil word, hruns, runsFrom, if_neg (by simpa using hne)]
      simp
    | cons next rest =>
      rw [joinWords, hruns, runsFrom, if_neg (by decide), if_neg (by simpa using hne),
        List.append_nil, List.reverse_reverse]
      · exact congrArg _ (ih hrest)
      · simp

/-- A run without capitals is one word. -/
theorem wordsFrom_of_isUpper_eq_false {known : LetterCase} {current run : List Char}
    (hne : run ≠ []) (h : ∀ c ∈ run, c.isUpper = false) :
    wordsFrom known current run = [current.reverse ++ run] := by
  induction known, current, run using wordsFrom.induct with
  | case1 => contradiction
  | case2 known current c => simp [wordsFrom]
  | case3 known current c next rest hsmall ih => simp [h next] at hsmall
  | case4 known current c next rest hsmall hcapitals ih => simp [h c] at hcapitals
  | case5 known current c next rest hsmall hcapitals ih =>
    rw [wordsFrom, if_neg hsmall, if_neg hcapitals,
      ih (List.cons_ne_nil _ _) (List.forall_mem_cons.mp h).2]
    simp

/-- Joined words are taken apart again. -/
theorem words_joinWords {ws : List (List Char)} (h : ∀ word ∈ ws, IsWord word) :
    words (joinWords ws) = ws := by
  have hword : ∀ word ∈ ws,
      (wordsFrom .none [] word).map (fun letters => letters.map Char.toLower) = [word] := by
    intro word hmem
    obtain ⟨hne, hchars⟩ := h word hmem
    rw [wordsFrom_of_isUpper_eq_false hne fun c hc =>
      (isUpper_and_toLower_of_isWordChar (hchars c hc)).1]
    have hsame : word.map Char.toLower = word.map id :=
      List.map_congr_left fun c hc => (isUpper_and_toLower_of_isWordChar (hchars c hc)).2
    simpa using hsame
  unfold words
  rw [runs_joinWords h, List.flatMap_congr hword, List.flatMap_singleton']

/-! ## Spelling -/

/-- How words are written as an identifier. -/
def spelled (ws : List (List Char)) : List Char :=
  match joinWords ws with
  | [] => ['u', 'n', 'n', 'a', 'm', 'e', 'd']
  | c :: rest => if c.isDigit then '_' :: c :: rest else c :: rest

theorem identifierChars_eq_spelled (name : List Char) :
    identifierChars name = spelled (words name) := rfl

theorem joinWords_cons (word : List Char) (rest : List (List Char)) :
    joinWords (word :: rest) = word ++ rest.flatMap ('_' :: ·) := by
  induction rest generalizing word with
  | nil => simp [joinWords]
  | cons next rest ih =>
    rw [joinWords, ih]
    · rfl
    · simp

/-- Where there are words, they are written after each other, with an underscore in front
of a digit. -/
theorem spelled_cons (c : Char) (word : List Char) (rest : List (List Char)) :
    spelled ((c :: word) :: rest) =
      (if c.isDigit then ['_'] else []) ++ joinWords ((c :: word) :: rest) := by
  unfold spelled
  rw [joinWords_cons, List.cons_append]
  dsimp only
  split <;> rfl

/-- What is written is taken apart into the words it is written of. -/
theorem words_spelled {ws : List (List Char)} (hne : ws ≠ []) (h : ∀ word ∈ ws, IsWord word) :
    words (spelled ws) = ws := by
  obtain ⟨word, rest, rfl⟩ := List.exists_cons_of_ne_nil hne
  obtain ⟨c, word, rfl⟩ := List.exists_cons_of_ne_nil (h word List.mem_cons_self).1
  rw [spelled_cons]
  split
  · -- an underscore at the beginning ends no run
    exact words_joinWords h
  · exact words_joinWords h

/-- Something is written for every name: where there are no words, it is one of its own. -/
theorem exists_spelled (name : List Char) :
    ∃ ws, ws ≠ [] ∧ (∀ word ∈ ws, IsWord word) ∧ identifierChars name = spelled ws := by
  rw [identifierChars_eq_spelled]
  cases hwords : words name with
  | nil =>
    refine ⟨[['u', 'n', 'n', 'a', 'm', 'e', 'd']], by simp, ?_, rfl⟩
    rw [List.forall_mem_singleton]
    exact ⟨by simp, List.all_eq_true.mp (by decide)⟩
  | cons word rest =>
    refine ⟨word :: rest, by simp, ?_, rfl⟩
    rw [← hwords]
    exact isWord_of_mem_words name

/-- What words are written as is its own identifier. -/
theorem identifierChars_spelled {ws : List (List Char)} (hne : ws ≠ [])
    (h : ∀ word ∈ ws, IsWord word) : identifierChars (spelled ws) = spelled ws := by
  rw [identifierChars_eq_spelled, words_spelled hne h]

/-! ## The language -/

/-- The texts of one character of a class. -/
def oneOf (p : Char → Bool) : Language Char := {text | ∃ c, p c = true ∧ text = [c]}

/-- Words, each with an underscore in front: `(_[a-z0-9]+)*`. -/
def laterWords : Language Char :=
  (oneOf (· = '_') * (oneOf isWordChar * (oneOf isWordChar)∗))∗

/-- The identifiers of names: `[a-z][a-z0-9]*(_[a-z0-9]+)*` and
`_[0-9][a-z0-9]*(_[a-z0-9]+)*`. -/
def identifierLanguage : Language Char :=
  oneOf Char.isLower * ((oneOf isWordChar)∗ * laterWords) +
    oneOf (· = '_') * (oneOf Char.isDigit * ((oneOf isWordChar)∗ * laterWords))

theorem mem_oneOf_mul {p : Char → Bool} {l : Language Char} {text : List Char} :
    text ∈ oneOf p * l ↔ ∃ c rest, p c = true ∧ rest ∈ l ∧ text = c :: rest := by
  rw [Language.mem_mul]
  constructor
  · rintro ⟨_, ⟨c, hc, rfl⟩, rest, hrest, rfl⟩
    exact ⟨c, rest, hc, hrest, rfl⟩
  · rintro ⟨c, rest, hc, hrest, rfl⟩
    exact ⟨[c], ⟨c, hc, rfl⟩, rest, hrest, rfl⟩

theorem mem_kstar_oneOf {p : Char → Bool} {text : List Char} :
    text ∈ (oneOf p)∗ ↔ ∀ c ∈ text, p c = true := by
  rw [Language.mem_kstar]
  constructor
  · rintro ⟨parts, rfl, hparts⟩ c hc
    obtain ⟨part, hpart, hc⟩ := List.mem_flatten.mp hc
    obtain ⟨d, hd, rfl⟩ := hparts part hpart
    rwa [List.mem_singleton.mp hc]
  · intro h
    refine ⟨text.map fun c => [c], by rw [← List.flatMap_def, List.flatMap_singleton'], ?_⟩
    intro part hpart
    obtain ⟨c, hc, rfl⟩ := List.mem_map.mp hpart
    exact ⟨c, h c hc, rfl⟩

theorem mem_word {text : List Char} :
    text ∈ oneOf isWordChar * (oneOf isWordChar)∗ ↔ IsWord text := by
  rw [mem_oneOf_mul]
  constructor
  · rintro ⟨c, rest, hc, hrest, rfl⟩
    exact ⟨List.cons_ne_nil _ _, List.forall_mem_cons.mpr ⟨hc, mem_kstar_oneOf.mp hrest⟩⟩
  · rintro ⟨hne, hchars⟩
    obtain ⟨c, rest, rfl⟩ := List.exists_cons_of_ne_nil hne
    rw [List.forall_mem_cons] at hchars
    exact ⟨c, rest, hchars.1, mem_kstar_oneOf.mpr hchars.2, rfl⟩

theorem mem_laterWords {text : List Char} :
    text ∈ laterWords ↔
      ∃ ws : List (List Char), (∀ word ∈ ws, IsWord word) ∧ text = ws.flatMap ('_' :: ·) := by
  unfold laterWords
  rw [Language.mem_kstar]
  constructor
  · rintro ⟨parts, rfl, hparts⟩
    induction parts with
    | nil => exact ⟨[], by simp, rfl⟩
    | cons part parts ih =>
      rw [List.forall_mem_cons] at hparts
      obtain ⟨ws, hws, hrest⟩ := ih hparts.2
      obtain ⟨c, word, hc, hword, rfl⟩ := mem_oneOf_mul.mp hparts.1
      refine ⟨word :: ws, List.forall_mem_cons.mpr ⟨mem_word.mp hword, hws⟩, ?_⟩
      rw [List.flatten_cons, hrest, List.flatMap_cons, of_decide_eq_true hc]
  · rintro ⟨ws, hws, rfl⟩
    refine ⟨ws.map ('_' :: ·), List.flatMap_def, ?_⟩
    intro part hpart
    obtain ⟨word, hword, rfl⟩ := List.mem_map.mp hpart
    exact mem_oneOf_mul.mpr ⟨'_', word, rfl, mem_word.mpr (hws word hword), rfl⟩

/-- The texts of the language are those that words are written as. -/
theorem mem_identifierLanguage_iff {text : List Char} :
    text ∈ identifierLanguage ↔
      ∃ ws, ws ≠ [] ∧ (∀ word ∈ ws, IsWord word) ∧ text = spelled ws := by
  have htail {rest : List Char} : rest ∈ (oneOf isWordChar)∗ * laterWords ↔
      ∃ (word : List Char) (ws : List (List Char)), (∀ c ∈ word, isWordChar c = true) ∧
        (∀ w ∈ ws, IsWord w) ∧ rest = word ++ ws.flatMap ('_' :: ·) := by
    rw [Language.mem_mul]
    constructor
    · rintro ⟨word, hword, _, hlater, rfl⟩
      obtain ⟨ws, hws, rfl⟩ := mem_laterWords.mp hlater
      exact ⟨word, ws, mem_kstar_oneOf.mp hword, hws, rfl⟩
    · rintro ⟨word, ws, hword, hws, rfl⟩
      exact ⟨word, mem_kstar_oneOf.mpr hword, _, mem_laterWords.mpr ⟨ws, hws, rfl⟩, rfl⟩
  have hword {c : Char} {word : List Char} (hc : isWordChar c = true)
      (h : ∀ d ∈ word, isWordChar d = true) : IsWord (c :: word) :=
    ⟨List.cons_ne_nil _ _, List.forall_mem_cons.mpr ⟨hc, h⟩⟩
  unfold identifierLanguage
  rw [Language.mem_add]
  constructor
  · rintro (h | h)
    · obtain ⟨c, _, hc, hrest, rfl⟩ := mem_oneOf_mul.mp h
      obtain ⟨word, ws, hchars, hws, rfl⟩ := htail.mp hrest
      have hfirst : isWordChar c = true := by rw [isWordChar, hc, Bool.true_or]
      have hdigit : c.isDigit = false := by
        delta Char.isLower Char.isDigit at *
        grind
      refine ⟨(c :: word) :: ws, by simp, List.forall_mem_cons.mpr ⟨hword hfirst hchars, hws⟩, ?_⟩
      rw [spelled_cons, joinWords_cons, hdigit]
      rfl
    · obtain ⟨_, _, hunderscore, hafter, rfl⟩ := mem_oneOf_mul.mp h
      obtain ⟨c, _, hc, hrest, rfl⟩ := mem_oneOf_mul.mp hafter
      obtain ⟨word, ws, hchars, hws, rfl⟩ := htail.mp hrest
      have hfirst : isWordChar c = true := by rw [isWordChar, hc, Bool.or_true]
      refine ⟨(c :: word) :: ws, by simp, List.forall_mem_cons.mpr ⟨hword hfirst hchars, hws⟩, ?_⟩
      rw [spelled_cons, joinWords_cons, hc, of_decide_eq_true hunderscore]
      rfl
  · rintro ⟨ws, hne, hws, rfl⟩
    obtain ⟨word, ws, rfl⟩ := List.exists_cons_of_ne_nil hne
    rw [List.forall_mem_cons] at hws
    obtain ⟨c, word, rfl⟩ := List.exists_cons_of_ne_nil hws.1.1
    have hchars := List.forall_mem_cons.mp hws.1.2
    have hrest := htail.mpr ⟨word, ws, hchars.2, hws.2, rfl⟩
    rw [spelled_cons, joinWords_cons]
    cases hdigit : c.isDigit with
    | true =>
      have hdigits := mem_oneOf_mul.mpr ⟨c, _, hdigit, hrest, rfl⟩
      exact .inr (mem_oneOf_mul.mpr ⟨'_', _, rfl, hdigits, rfl⟩)
    | false =>
      have hc : c.isLower = true := by simpa [isWordChar, hdigit] using hchars.1
      exact .inl (mem_oneOf_mul.mpr ⟨c, _, hc, hrest, rfl⟩)

/-! ## Names and their identifiers -/

/-- The identifier of every name is an identifier and its own identifier.  The texts that
are identifiers of names are those of the language, and so are those that are their own
identifiers. -/
theorem identifier_projection :
    (∀ name, isIdentifier (identifier name) = true) ∧
      (∀ name, identifier (identifier name) = identifier name) ∧
      Set.range identifier = {text | text.toList ∈ identifierLanguage} ∧
      Function.fixedPoints identifier = {text | text.toList ∈ identifierLanguage} := by
  have hmem (name : String) : (identifier name).toList ∈ identifierLanguage := by
    rw [identifier, String.toList_ofList, mem_identifierLanguage_iff]
    exact exists_spelled name.toList
  have hfixed {text : String} (h : text.toList ∈ identifierLanguage) : identifier text = text := by
    obtain ⟨ws, hne, hws, htext⟩ := mem_identifierLanguage_iff.mp h
    rw [identifier, htext, identifierChars_spelled hne hws, ← htext, String.ofList_toList]
  refine ⟨isIdentifier_identifier, fun name => hfixed (hmem name), Set.ext fun text => ?_,
    Set.ext fun text => ?_⟩
  · constructor
    · rintro ⟨name, rfl⟩
      exact hmem name
    · intro h
      exact ⟨text, hfixed h⟩
  · constructor
    · intro h
      exact Function.IsFixedPt.eq h ▸ hmem text
    · exact hfixed

end ProviderSchema.Text
