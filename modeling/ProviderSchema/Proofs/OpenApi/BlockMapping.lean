import Mathlib.Data.List.DropRight
import Mathlib.Data.List.Infix
import Mathlib.Data.List.TakeWhile
import ProviderSchema.OpenApi.LineIndex

/-!
# Mappings in block style

A `BlockMapping` is a document of nested mappings with nothing but keys in it.
`BlockMapping.text` writes it in block style, one key on a line, each level two
spaces deeper than the one above it; `BlockMapping.lines` keeps, with each
line, the path of the key that is written there.

The index of such a text keeps everything there is to know of a line but one
thing: a key that holds a colon is not read at all (`Line.ofChars_keyLine`).
So the index is computed from the mapping (`lines_ofText_text`), and the block
of a line holds the lines of the mapping below its key and no others
(`block_index`).
-/

namespace ProviderSchema.OpenApi

/-- A mapping: nothing, or a key with what is below it and the entries after
it. -/
inductive BlockMapping where
  | empty
  | entry (key : String) (below rest : BlockMapping)
deriving DecidableEq, Repr

/-- The characters that no plain scalar starts with. -/
def indicators : List Char :=
  ['-', '?', ':', ',', '[', ']', '{', '}', '#', '&', '*', '!', '|', '>', '\'', '"', '%', '@', '`']

/-- The characters of a plain scalar on one line: it is not empty, starts with
no indicator, has no white space around it and does not end in a colon, and in
it no white space comes after a colon or before a hash. -/
def IsPlain (chars : List Char) : Prop :=
  chars ≠ [] ∧ '\n' ∉ chars ∧
    (∀ c ∈ chars.head?, isSpace c = false ∧ c ∉ indicators) ∧
    (∀ c ∈ chars.getLast?, isSpace c = false ∧ c ≠ ':') ∧
    ∀ blank ∈ [' ', '\t'], ¬ [':', blank] <:+: chars ∧ ¬ [blank, '#'] <:+: chars

-- What is said of some characters is not to be decided by trying all characters.
instance : DecidablePred IsPlain := fun chars =>
  have : Decidable (∀ c ∈ chars.head?, isSpace c = false ∧ c ∉ indicators) :=
    Option.decidableForallMem _
  have : Decidable (∀ c ∈ chars.getLast?, isSpace c = false ∧ c ≠ ':') :=
    Option.decidableForallMem _
  have : Decidable (∀ blank ∈ [' ', '\t'], ¬ [':', blank] <:+: chars ∧ ¬ [blank, '#'] <:+: chars) :=
    List.decidableBAll _ _
  inferInstanceAs (Decidable (_ ∧ _ ∧ _ ∧ _ ∧ _))

/-- A key on a line of its own, below as many levels as `depth` says. -/
def keyLine (depth : Nat) (key : String) : List Char :=
  List.replicate (2 * depth) ' ' ++ (key.toList ++ [':'])

namespace BlockMapping

/-- The keys of the mapping itself. -/
def names : BlockMapping → List String
  | .empty => []
  | .entry key _ rest => key :: rest.names

/-- The keys of the mapping and of all mappings below it. -/
def keys : BlockMapping → List String
  | .empty => []
  | .entry key below rest => key :: (below.keys ++ rest.keys)

/-- Every key is a plain scalar, and no mapping has a key twice. -/
def WellFormed : BlockMapping → Prop
  | .empty => True
  | .entry key below rest =>
    IsPlain key.toList ∧ key ∉ rest.names ∧ below.WellFormed ∧ rest.WellFormed

instance decidableWellFormed : DecidablePred WellFormed
  | .empty => .isTrue trivial
  | .entry _ below rest =>
    have := decidableWellFormed below
    have := decidableWellFormed rest
    inferInstanceAs (Decidable (_ ∧ _ ∧ _ ∧ _))

/-- The lines of a mapping that stands at a path, each with the path of the key
that is written there. -/
def linesAt (above : List String) : BlockMapping → List (List String × List Char)
  | .empty => []
  | .entry key below rest =>
    (above ++ [key], keyLine above.length key)
      :: (linesAt (above ++ [key]) below ++ linesAt above rest)

/-- The lines of a document. -/
def lines (m : BlockMapping) : List (List String × List Char) := m.linesAt []

/-- The document as a text. -/
def text (m : BlockMapping) : String :=
  String.ofList (m.lines.flatMap fun line => line.2 ++ ['\n'])

end BlockMapping

/-! ## One line -/

/-- What is read of a key: nothing if there is a colon in it. -/
def readKey (key : String) : Option String := if ':' ∈ key.toList then none else some key

theorem octets_replicate_space (n : Nat) : octets (List.replicate n ' ') = n := by
  have h (m : Nat) : (List.replicate n ' ').foldl (fun k c => k + c.utf8Size) m = m + n := by
    induction n generalizing m with
    | zero => rfl
    | succ n ih =>
      rw [List.replicate_succ, List.foldl_cons, ih]
      simp only [show ' '.utf8Size = 1 from rfl]
      omega
  rw [octets, h, Nat.zero_add]

theorem trimEnd_eq_self {chars : List Char} (h : ∀ c ∈ chars.getLast?, isSpace c = false) :
    trimEnd chars = chars := by
  refine List.rdropWhile_eq_self_iff.mpr fun hne => ?_
  rw [h _ (List.getLast_mem_getLast? hne)]
  exact Bool.false_ne_true

/-- White space before a line is not part of what is written there. -/
theorem takeWhile_replicate_append {chars : List Char} (h : ∀ c ∈ chars.head?, isSpace c = false)
    (n : Nat) :
    (List.replicate n ' ' ++ chars).takeWhile isSpace = List.replicate n ' ' ∧
      (List.replicate n ' ' ++ chars).dropWhile isSpace = chars := by
  induction n with
  | zero =>
    cases chars with
    | nil => exact ⟨rfl, rfl⟩
    | cons c rest =>
      have hc := h c rfl
      exact ⟨List.takeWhile_cons_of_neg (by simp [hc]), List.dropWhile_cons_of_neg (by simp [hc])⟩
  | succ n ih =>
    have hspace : isSpace ' ' = true := rfl
    rw [List.replicate_succ, List.cons_append, List.takeWhile_cons_of_pos hspace,
      List.dropWhile_cons_of_pos hspace, ih.1, ih.2]
    exact ⟨rfl, rfl⟩

/-- If there is a colon in a plain scalar, what comes after the first one is
neither nothing nor white space. -/
theorem dropWhile_colon {chars : List Char} (h : IsPlain chars) (hcolon : ':' ∈ chars) :
    ∃ c after, (chars ++ [':']).dropWhile (· ≠ ':') = ':' :: c :: after ∧ c ≠ ' ' ∧ c ≠ '\t' := by
  obtain ⟨-, -, -, hlast, hinside⟩ := h
  obtain ⟨before, after, rfl, hbefore⟩ := List.eq_append_cons_of_mem hcolon
  have hdrop : (before ++ ':' :: after ++ [':']).dropWhile (· ≠ ':') = ':' :: (after ++ [':']) := by
    rw [List.append_assoc, List.dropWhile_append_of_pos]
    · simp
    · rintro c hc
      simpa using fun heq : c = ':' => hbefore (heq ▸ hc)
  rw [hdrop]
  cases after with
  | nil => exact absurd rfl (hlast ':' (by simp)).2
  | cons c after =>
    have hblank : ∀ blank ∈ [' ', '\t'], c ≠ blank := by
      rintro blank hmem rfl
      exact (hinside c hmem).1 ⟨before, after, by simp⟩
    exact ⟨c, after ++ [':'], rfl, hblank ' ' (by simp), hblank '\t' (by simp)⟩

/-- A line that starts with no mark of a list item and with no quote starts
with what stands before its first colon. -/
theorem lineKey?_bare {c : Char} (rest : List Char) (hdash : c ≠ '-') (hquote : c ≠ '"')
    (hapostrophe : c ≠ '\'') :
    lineKey? (c :: rest) =
      match (c :: rest).dropWhile (· ≠ ':') with
      | [] => none
      | _ :: after =>
        if after = [] || after.head? = some ' ' || after.head? = some '\t' then
          some (String.ofList (trimEnd ((c :: rest).takeWhile (· ≠ ':'))))
        else none := by
  unfold lineKey?
  split
  · rename_i h
    exact absurd (List.cons.inj h).1 hdash
  · dsimp only
    exact if_neg (by simp [hquote, hapostrophe])

/-- The key of a line is read unless it holds a colon. -/
theorem lineKey?_append_colon {key : String} (h : IsPlain key.toList) :
    lineKey? (key.toList ++ [':']) = readKey key := by
  have hplain := h
  obtain ⟨hne, -, hfirst, hlast, -⟩ := h
  obtain ⟨c, rest, hchars⟩ := List.exists_cons_of_ne_nil hne
  rw [hchars] at hfirst
  have hmark : ∀ d ∈ indicators, c ≠ d := fun d hd heq => (hfirst c rfl).2 (heq ▸ hd)
  have hbare := lineKey?_bare (rest ++ [':']) (hmark '-' (by decide)) (hmark '"' (by decide))
    (hmark '\'' (by decide))
  rw [← List.cons_append, ← hchars] at hbare
  rw [hbare, readKey]
  by_cases hcolon : ':' ∈ key.toList
  · obtain ⟨c', after, hdrop, hspace, htab⟩ := dropWhile_colon hplain hcolon
    rw [hdrop, if_pos hcolon]
    simp [hspace, htab]
  · have hall : ∀ c ∈ key.toList, decide (c ≠ ':') = true := by
      rintro c hmem
      simpa using fun heq : c = ':' => hcolon (heq ▸ hmem)
    rw [if_neg hcolon, List.dropWhile_append_of_pos hall, List.takeWhile_append_of_pos hall]
    simp [trimEnd_eq_self fun c hmem => (hlast c hmem).1]

/-- What is kept of a line that a key is written on. -/
theorem Line.ofChars_keyLine (depth : Nat) {key : String} (h : IsPlain key.toList) :
    Line.ofChars (keyLine depth key) = ⟨2 * depth, readKey key, false⟩ := by
  obtain ⟨c, rest, hchars⟩ := List.exists_cons_of_ne_nil h.1
  have hfirst := h.2.2.1 c (by rw [hchars]; rfl)
  have hspace : ∀ c' ∈ (key.toList ++ [':']).head?, isSpace c' = false := by
    rw [hchars]
    rintro c' ⟨⟩
    exact hfirst.1
  have hhash : c ≠ '#' := fun heq => hfirst.2 (heq ▸ by decide)
  obtain ⟨htake, hdrop⟩ := takeWhile_replicate_append hspace (2 * depth)
  unfold Line.ofChars keyLine
  rw [htake, hdrop, octets_replicate_space]
  dsimp only
  rw [lineKey?_append_colon h]
  simp [hchars, hhash]

/-- A block goes no further than to a line that ends it. -/
theorem LineIndex.block_append {indent : Nat} {beyond : List Line}
    (h : ∀ line ∈ beyond.head?, line.blank = false ∧ line.indent ≤ indent) (lines : List Line) :
    LineIndex.block indent (lines ++ beyond) = LineIndex.block indent lines := by
  have hend : LineIndex.block indent beyond = [] := by
    cases beyond with
    | nil => rfl
    | cons line rest =>
      obtain ⟨hblank, hindent⟩ := h line rfl
      rw [LineIndex.block, List.takeWhile_cons_of_neg (by simp [hblank, hindent])]
  induction lines with
  | nil => exact hend
  | cons line rest ih =>
    unfold LineIndex.block at ih ⊢
    rw [List.cons_append, List.takeWhile_cons, List.takeWhile_cons, ih]

/-! ## All lines -/

/-- A line that ends in a colon is kept as it is. -/
theorem splitLines_append {line : List Char} (h : '\n' ∉ line) (rest current : List Char) :
    splitLines current (line ++ ':' :: '\n' :: rest) =
      (current.reverse ++ (line ++ [':'])) :: splitLines [] rest := by
  induction line generalizing current with
  | nil => simp [splitLines, finishLine]
  | cons c line ih =>
    rw [List.mem_cons, not_or] at h
    rw [List.cons_append, splitLines]
    · rw [ih h.2]
      simp
    · exact fun heq => h.1 heq.symm

namespace BlockMapping

variable {m : BlockMapping}

/-- The index of the lines of a mapping that stands at a depth. -/
def index (depth : Nat) : BlockMapping → List Line
  | .empty => []
  | .entry key below rest =>
    ⟨2 * depth, readKey key, false⟩ :: (below.index (depth + 1) ++ rest.index depth)

theorem map_ofChars_linesAt (h : m.WellFormed) (above : List String) :
    (m.linesAt above).map (fun line => Line.ofChars line.2) = m.index above.length := by
  induction m generalizing above with
  | empty => rfl
  | entry key below rest ihbelow ihrest =>
    obtain ⟨hplain, -, hbelow, hrest⟩ := h
    rw [linesAt, index, List.map_cons, List.map_append, Line.ofChars_keyLine _ hplain,
      ihbelow hbelow, ihrest hrest, List.length_append, List.length_singleton]

theorem length_index (depth : Nat) (above : List String) (m : BlockMapping) :
    (m.index depth).length = (m.linesAt above).length := by
  induction m generalizing depth above with
  | empty => rfl
  | entry key below rest ihbelow ihrest =>
    rw [index, linesAt, List.length_cons, List.length_cons, List.length_append,
      List.length_append, ihbelow (depth + 1) (above ++ [key]), ihrest depth above]

/-- The lines that are written are the lines that are read. -/
theorem splitLines_linesAt (h : m.WellFormed) (above : List String) :
    splitLines [] ((m.linesAt above).flatMap fun line => line.2 ++ ['\n']) =
      (m.linesAt above).map (·.2) := by
  have hlines : ∀ line ∈ m.linesAt above, ∃ before, line.2 = before ++ [':'] ∧ '\n' ∉ before := by
    induction m generalizing above with
    | empty => simp [linesAt]
    | entry key below rest ihbelow ihrest =>
      obtain ⟨hplain, -, hbelow, hrest⟩ := h
      intro line hline
      rw [linesAt, List.mem_cons, List.mem_append] at hline
      rcases hline with rfl | hline | hline
      · refine ⟨List.replicate (2 * above.length) ' ' ++ key.toList, by simp [keyLine], ?_⟩
        simp [hplain.2.1]
      · exact ihbelow hbelow _ line hline
      · exact ihrest hrest _ line hline
  generalize m.linesAt above = lines at hlines
  induction lines with
  | nil => rfl
  | cons line rest ih =>
    rw [List.forall_mem_cons] at hlines
    obtain ⟨⟨before, hline, hbreak⟩, hrest⟩ := hlines
    have hsplit := splitLines_append hbreak (rest.flatMap fun line => line.2 ++ ['\n']) []
    rw [List.flatMap_cons, hline, List.map_cons, hline, ← ih hrest]
    simpa using hsplit

/-- The index of a document. -/
theorem lines_ofText_text (h : m.WellFormed) : (LineIndex.ofText m.text).lines = m.index 0 := by
  rw [LineIndex.ofText, text, String.toList_ofList, lines, splitLines_linesAt h, List.map_map]
  exact map_ofChars_linesAt h []

/-! ## What stands in an index -/

/-- The lines of a mapping are not blank and indented at least as deep as the
mapping. -/
theorem le_indent_of_mem_index {depth : Nat} {line : Line} (h : line ∈ m.index depth) :
    2 * depth ≤ line.indent ∧ line.blank = false := by
  induction m generalizing depth with
  | empty => cases h
  | entry key below rest ihbelow ihrest =>
    rw [index, List.mem_cons, List.mem_append] at h
    rcases h with rfl | h | h
    · exact ⟨Nat.le_refl _, rfl⟩
    · obtain ⟨hindent, hblank⟩ := ihbelow h
      exact ⟨by omega, hblank⟩
    · exact ihrest h

/-- No block goes on beyond a key that stands at its depth or above it. -/
theorem block_append_index {indent depth : Nat} (h : 2 * depth ≤ indent) (lines : List Line)
    (m : BlockMapping) :
    LineIndex.block indent (lines ++ m.index depth) = LineIndex.block indent lines := by
  refine LineIndex.block_append (fun line hline => ?_) lines
  cases m with
  | empty => cases hline
  | entry key below rest =>
    cases hline
    exact ⟨rfl, h⟩

/-- The block that a key opens holds the lines below the key. -/
theorem block_index (depth : Nat) (below rest : BlockMapping) :
    LineIndex.block (2 * depth) (below.index (depth + 1) ++ rest.index depth) =
      below.index (depth + 1) := by
  rw [block_append_index (Nat.le_refl _), LineIndex.block, List.takeWhile_eq_self_iff]
  intro line hline
  have hindent := (le_indent_of_mem_index hline).1
  have hdeeper : 2 * depth < line.indent := by omega
  simp [hdeeper]

/-- The keys that are read are keys of the mapping without a colon. -/
theorem mem_keys_of_mem_index {depth : Nat} {line : Line} {key : String} (h : line ∈ m.index depth)
    (hkey : line.key = some key) : key ∈ m.keys ∧ ':' ∉ key.toList := by
  induction m generalizing depth with
  | empty => cases h
  | entry name below rest ihbelow ihrest =>
    rw [index, List.mem_cons, List.mem_append] at h
    rw [keys, List.mem_cons, List.mem_append]
    rcases h with rfl | h | h
    · rw [readKey] at hkey
      split at hkey
      · cases hkey
      · cases hkey
        exact ⟨.inl rfl, ‹_›⟩
    · exact ⟨.inr (.inl (ihbelow h).1), (ihbelow h).2⟩
    · exact ⟨.inr (.inr (ihrest h).1), (ihrest h).2⟩

/-- All keys of the mapping without a colon are read. -/
theorem exists_mem_index_of_mem_keys {key : String} (h : key ∈ m.keys) (hcolon : ':' ∉ key.toList)
    (depth : Nat) : ∃ line ∈ m.index depth, line.key = some key := by
  induction m generalizing depth with
  | empty => cases h
  | entry name below rest ihbelow ihrest =>
    rw [keys, List.mem_cons, List.mem_append] at h
    rcases h with rfl | h | h
    · exact ⟨_, List.mem_cons_self, if_neg hcolon⟩
    · obtain ⟨line, hline, hkey⟩ := ihbelow h (depth + 1)
      exact ⟨line, List.mem_cons_of_mem _ (List.mem_append_left _ hline), hkey⟩
    · obtain ⟨line, hline, hkey⟩ := ihrest h depth
      exact ⟨line, List.mem_cons_of_mem _ (List.mem_append_right _ hline), hkey⟩

end BlockMapping

end ProviderSchema.OpenApi
