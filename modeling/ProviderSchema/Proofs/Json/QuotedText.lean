import ProviderSchema.Json.Quoted
import ProviderSchema.Json.Reader

/-!
# Quoted texts are read back

A character is read back from what stands for it between the quotes, in one step of
the reader (`scanQuoted_escape`), and so is every text, whatever follows the closing quote
(`scanText_escape`): alone between quotes (`quotedText?_encode`), or as the whole of what
the reader of JSON is given (`SourceText.ofText_quote`).
-/

namespace ProviderSchema.Json

open Quoted (encode escape hexDigit)

theorem digit?_hexDigit : ∀ n < 16, Decimal.digit? 16 (hexDigit n) = some n := by decide

/-- The number of a control character is read from its four digits. -/
theorem scanHex4_hexDigit {n : Nat} (h : n < 32) (line : Nat) (rest : List Char) :
    scanHex4 line ('0' :: '0' :: hexDigit (n / 16) :: hexDigit (n % 16) :: rest) =
      .ok (n, rest) := by
  have hzero : Decimal.digit? 16 '0' = some 0 := by decide
  have hvalue : ((0 * 16 + 0) * 16 + n / 16) * 16 + n % 16 = n := by omega
  rw [scanHex4, hzero, digit?_hexDigit (n / 16) (by omega), digit?_hexDigit (n % 16) (by omega)]
  dsimp only
  rw [hvalue]

/-- One step of the reader takes one character. -/
theorem scanQuoted_escape (c : Char) (taken after : List Char) (line fuel : Nat) :
    scanQuoted (.ok taken) line (escape c ++ after) (fuel + 1) =
      scanQuoted (.ok (c :: taken)) line after fuel := by
  unfold escape
  split
  · subst c
    rfl
  · rename_i hquote
    split
    · subst c
      rfl
    · rename_i hbackslash
      -- Five characters are escaped by a letter, and control characters by their number.
      iterate 5
        split
        · subst c
          rfl
      split
      · rename_i hcontrol
        have hhigh : isHighSurrogate c.toNat = false := by
          rw [isHighSurrogate, Bool.and_eq_false_iff]
          exact .inl (decide_eq_false (by omega))
        have hlow : isLowSurrogate c.toNat = false := by
          rw [isLowSurrogate, Bool.and_eq_false_iff]
          exact .inl (decide_eq_false (by omega))
        have hhex := scanHex4_hexDigit hcontrol line after
        simp only [List.cons_append, List.nil_append]
        rw [scanQuoted]
        simp only [hhex, hhigh, hlow, Char.ofNat_toNat]
        rfl
      · rename_i hplain
        rw [List.singleton_append, scanQuoted]
        · simp only [if_neg hplain]
          rfl
        all_goals simp [hquote, hbackslash]

/-- So the reader takes a whole text, if it has steps enough. -/
theorem scanQuoted_flatMap_escape (text taken rest : List Char) (line : Nat) {fuel : Nat}
    (h : text.length < fuel) :
    scanQuoted (.ok taken) line (text.flatMap escape ++ '"' :: rest) fuel =
      ⟨.ok (String.ofList (taken.reverse ++ text)), .ok ⟨rest, line⟩⟩ := by
  induction text generalizing taken fuel with
  | nil =>
    obtain ⟨fuel, rfl⟩ : ∃ n, fuel = n + 1 := ⟨fuel - 1, by omega⟩
    rw [List.append_nil]
    rfl
  | cons c text ih =>
    rw [List.length_cons] at h
    obtain ⟨fuel, rfl⟩ : ∃ n, fuel = n + 1 := ⟨fuel - 1, by omega⟩
    rw [List.flatMap_cons, List.append_assoc, scanQuoted_escape, ih _ (by omega),
      List.reverse_cons, List.append_assoc]
    rfl

theorem length_le_length_flatMap_escape (text : List Char) :
    text.length ≤ (text.flatMap escape).length := by
  induction text with
  | nil => exact Nat.le_refl 0
  | cons c rest ih =>
    have hpos : 0 < (escape c).length := by
      unfold escape
      repeat' split
      all_goals exact Nat.succ_pos _
    rw [List.flatMap_cons, List.length_append, List.length_cons]
    omega

/-- From after its opening quote a text is read up to its closing quote. -/
theorem scanText_escape (text rest : List Char) (line : Nat) :
    scanText ⟨text.flatMap escape ++ '"' :: rest, line⟩ =
      ⟨.ok (String.ofList text), .ok ⟨rest, line⟩⟩ := by
  have hsteps : text.length < (text.flatMap escape ++ '"' :: rest).length + 1 := by
    have hle := length_le_length_flatMap_escape text
    rw [List.length_append]
    omega
  exact scanQuoted_flatMap_escape text [] rest line hsteps

/-- The value of a text between quotes, if it is one and nothing follows. -/
def quotedText? : List Char → Option String
  | '"' :: rest =>
    match scanText ⟨rest, 1⟩ with
    | ⟨.ok value, .ok ⟨[], _⟩⟩ => some value
    | _ => none
  | _ => none

/-- A text is read back from between its quotes. -/
theorem quotedText?_encode (text : List Char) :
    quotedText? (encode text) = some (String.ofList text) := by
  rw [encode, quotedText?, scanText_escape]

/-- A text between quotes is, to the reader of JSON, this text and nothing else. -/
theorem SourceText.ofText_quote (text : String) :
    SourceText.ofText (Quoted.quote text) = ⟨.text text, none⟩ := by
  have hread : ∀ fuel, readValue 0 ⟨encode text.toList, 1⟩ (fuel + 1) =
      (.text text, some ⟨[], 1⟩) := fun fuel => by
    have htext := scanText_escape text.toList [] 1
    rw [String.ofList_toList] at htext
    change (scanText ⟨text.toList.flatMap escape ++ ['"'], 1⟩).source Source.text = _
    rw [htext, Scanned.source]
  rw [SourceText.ofText, Quoted.quote, String.toList_ofList, hread]
  rfl

end ProviderSchema.Json
