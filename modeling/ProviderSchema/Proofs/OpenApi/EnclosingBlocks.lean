import Mathlib.Data.List.Forall2
import ProviderSchema.Proofs.OpenApi.LocatedKeys

/-!
# The blocks around a key

`LineIndex.locate` narrows its search from block to block, and what it takes for the block of
a line is a part of the block before.  A block can as well be told from the whole text: it
goes on from a line as long as the lines are blank, comments, or indented deeper than that
line (`InBlock`).

Both come to the same, whatever the text is (`LineIndex.block_eq_blockBelow`).  A line that
ends a block is not indented deeper than the line that opened it, so it ends every block that
was opened inside.  For the same reason blocks are nested: what is in the block of a line with
a key is in all blocks that this line is in (`InBlock.trans`).

So a key is found on the first line that carries it in the block of the keys before it
(`locate_concat_eq_some_iff`), and the search never leaves a block that it has entered
(`locate_staysInBlocks`).
-/

namespace ProviderSchema.OpenApi

/-! ## The lines of a text -/

/-- A line with nothing but white space. -/
def IsBlankLine (line : List Char) : Prop := ∀ c ∈ line, isSpace c = true

/-- A line whose first character after the white space is a hash. -/
def IsCommentLine (line : List Char) : Prop := (line.dropWhile isSpace).head? = some '#'

/-- The number of octets of white space before a line. -/
def indentation (line : List Char) : Nat := octets (line.takeWhile isSpace)

/-- A line that is neither blank nor a comment starts with a key. -/
def CarriesKey (key : String) (line : List Char) : Prop :=
  ¬ IsBlankLine line ∧ ¬ IsCommentLine line ∧ lineKey? (line.dropWhile isSpace) = some key

/-- A line of a text by its number; lines count from one. -/
def textLine? (text : String) : Nat → Option (List Char)
  | 0 => none
  | n + 1 => (splitLines [] text.toList)[n]?

/-- The key is on the line with this number. -/
def KeyOnLine (text : String) (key : String) (n : Nat) : Prop :=
  ∃ line, textLine? text n = some line ∧ CarriesKey key line

/-- From one line to another one all lines are in the block that the first one opens: they are
blank, comments, or indented deeper. -/
def InBlock (text : String) (m n : Nat) : Prop :=
  m < n ∧ ∃ opener, textLine? text m = some opener ∧ ∀ k, m < k → k ≤ n →
    ∃ line, textLine? text k = some line ∧
      (IsBlankLine line ∨ IsCommentLine line ∨ indentation opener < indentation line)

/-- A line may be looked at below another one: it is in its block.  Below no line at all there
is the whole text. -/
def Below (text : String) : Nat → Nat → Prop
  | 0, n => 0 < n
  | m + 1, n => InBlock text (m + 1) n

theorem isBlankLine_iff {line : List Char} : IsBlankLine line ↔ line.dropWhile isSpace = [] :=
  List.dropWhile_eq_nil_iff.symm

theorem Below.lt {text : String} {m n : Nat} (h : Below text m n) : m < n := by
  cases m with
  | zero => exact h
  | succ m => exact h.1

theorem Line.blank_ofChars {line : List Char} :
    (Line.ofChars line).blank = true ↔ IsBlankLine line ∨ IsCommentLine line := by
  simp [Line.ofChars, isBlankLine_iff, IsCommentLine]

theorem Line.key_ofChars {line : List Char} {key : String} :
    (Line.ofChars line).key = some key ↔ CarriesKey key line := by
  have hkey : (Line.ofChars line).key =
      if (Line.ofChars line).blank = true then none else lineKey? (line.dropWhile isSpace) := rfl
  rw [hkey, CarriesKey, ← and_assoc, ← not_or, ← Line.blank_ofChars]
  split <;> simp [*]

theorem Line.stays_ofChars_iff {opener line : List Char} :
    ((Line.ofChars line).blank ||
        decide ((Line.ofChars opener).indent < (Line.ofChars line).indent)) = true ↔
      IsBlankLine line ∨ IsCommentLine line ∨ indentation opener < indentation line := by
  rw [Bool.or_eq_true, Line.blank_ofChars, decide_eq_true_iff, or_assoc]
  rfl

/-- What is in the block of a line with a key is in every block that this line is in. -/
theorem InBlock.trans {text key : String} {l m n : Nat} (h : InBlock text l m)
    (hkey : KeyOnLine text key m) (h' : InBlock text m n) : InBlock text l n := by
  obtain ⟨hlm, opener, hopener, hbefore⟩ := h
  obtain ⟨hmn, inner, hinner, hafter⟩ := h'
  refine ⟨Nat.lt_trans hlm hmn, opener, hopener, fun k hlk hkn => ?_⟩
  rcases Nat.lt_or_ge m k with hmk | hkm
  · obtain ⟨line, hline, hbelow⟩ := hafter k hmk hkn
    -- the line with the key counts as indented, because it is neither blank nor a comment
    have hdeeper : indentation opener < indentation inner := by
      obtain ⟨line', hline', hnotBlank, hnotComment, -⟩ := hkey
      obtain rfl : inner = line' := Option.some.inj (hinner.symm.trans hline')
      obtain ⟨line'', hline'', hcases⟩ := hbefore m hlm (Nat.le_refl m)
      obtain rfl : inner = line'' := Option.some.inj (hinner.symm.trans hline'')
      exact (hcases.resolve_left hnotBlank).resolve_left hnotComment
    exact ⟨line, hline, hbelow.imp_right (Or.imp_right (Nat.lt_trans hdeeper))⟩
  · exact hbefore k hlk hkm

/-! ## Blocks in the whole text -/

namespace LineIndex

/-- The lines of the block that the line with this number opens, in the whole text.  Below no
line at all there is the whole text. -/
def blockBelow (index : LineIndex) : Nat → List Line
  | 0 => index.lines
  | m + 1 =>
    match index.lines[m]? with
    | none => []
    | some opener => block opener.indent (index.lines.drop (m + 1))

theorem blockBelow_succ {index : LineIndex} {m : Nat} {opener : Line}
    (h : index.lines[m]? = some opener) :
    index.blockBelow (m + 1) = block opener.indent (index.lines.drop (m + 1)) := by
  rw [blockBelow, h]

/-- Of the lines that follow a block the first one ends it. -/
theorem exists_append_block (indent : Nat) (lines : List Line) :
    ∃ beyond, lines = block indent lines ++ beyond ∧
      ∀ line ∈ beyond.head?, line.blank = false ∧ line.indent ≤ indent := by
  refine ⟨_, List.takeWhile_append_dropWhile.symm, fun line hline => ?_⟩
  have hends :=
    List.head?_dropWhile_not (fun line : Line => line.blank || indent < line.indent) lines
  rw [hline] at hends
  simpa using hends

/-- The block of a line in the block that is searched is its block in the whole text. -/
theorem block_eq_blockBelow {index : LineIndex} {m : Nat} {earlier later : List Line} {line : Line}
    (h : index.blockBelow m = earlier ++ line :: later) (hblank : line.blank = false) :
    block line.indent later = index.blockBelow (m + earlier.length + 1) := by
  obtain ⟨beyond, hdrop, hends⟩ : ∃ beyond,
      index.lines.drop m = earlier ++ line :: later ++ beyond ∧
        ∀ last ∈ beyond.head?, last.blank = false ∧ last.indent ≤ line.indent := by
    cases m with
    | zero => exact ⟨[], by simpa [blockBelow] using h, by simp⟩
    | succ m =>
      obtain ⟨opener, hopener⟩ : ∃ opener, index.lines[m]? = some opener := by
        refine Option.ne_none_iff_exists'.mp fun hnone => ?_
        rw [blockBelow, hnone] at h
        simp at h
      rw [blockBelow_succ hopener] at h
      obtain ⟨beyond, hdrop, hends⟩ := exists_append_block opener.indent (index.lines.drop (m + 1))
      have hmem : line ∈ block opener.indent (index.lines.drop (m + 1)) := by simp [h]
      have hdeeper : opener.indent < line.indent := by
        simpa [hblank] using List.mem_takeWhile_imp hmem
      rw [h] at hdrop
      refine ⟨beyond, hdrop, fun last hlast => ⟨(hends last hlast).1, ?_⟩⟩
      exact Nat.le_of_lt (Nat.lt_of_le_of_lt (hends last hlast).2 hdeeper)
  have hline : index.lines.drop (m + earlier.length) = line :: (later ++ beyond) := by
    rw [← List.drop_drop, hdrop, List.append_assoc, List.drop_left]
    rfl
  have hopener : index.lines[m + earlier.length]? = some line := by
    rw [← List.head?_drop, hline, List.head?_cons]
  rw [blockBelow_succ hopener, ← List.tail_drop, hline]
  exact (block_append hends later).symm

end LineIndex

/-! ## The search in the whole text -/

/-- An initial part of a list reaches to an index if all entries up to there belong to it. -/
theorem getElem?_takeWhile_eq_some_iff {α : Type} {p : α → Bool} {l : List α} {i : Nat} {a : α} :
    (l.takeWhile p)[i]? = some a ↔
      l[i]? = some a ∧ ∀ j ≤ i, ∃ b, l[j]? = some b ∧ p b = true := by
  induction l generalizing i with
  | nil => simp
  | cons first rest ih =>
    by_cases hp : p first = true
    · rw [List.takeWhile_cons_of_pos hp]
      cases i with
      | zero => simp [hp]
      | succ i =>
        rw [List.getElem?_cons_succ, List.getElem?_cons_succ, ih]
        refine and_congr_right fun _ => ⟨fun h j hj => ?_, fun h j hj => ?_⟩
        · cases j with
          | zero => exact ⟨first, rfl, hp⟩
          | succ j => exact h j (Nat.le_of_succ_le_succ hj)
        · exact h (j + 1) (Nat.succ_le_succ hj)
    · rw [List.takeWhile_cons_of_neg hp]
      refine iff_of_false (by simp) fun h => hp ?_
      obtain ⟨b, hb, hpb⟩ := h.2 0 (Nat.zero_le i)
      cases hb
      exact hpb

namespace LineIndex

variable {text key : String} {m : Nat}

theorem getElem?_lines_ofText {k : Nat} {line : Line} :
    (ofText text).lines[k]? = some line ↔
      ∃ chars, textLine? text (k + 1) = some chars ∧ Line.ofChars chars = line := by
  rw [ofText, List.getElem?_map, Option.map_eq_some_iff]
  rfl

/-- What stands in the block of a line are the lines of the text that are in it. -/
theorem getElem?_blockBelow_eq_some_iff {i : Nat} {line : Line} :
    ((ofText text).blockBelow m)[i]? = some line ↔
      (∃ chars, textLine? text (m + i + 1) = some chars ∧ Line.ofChars chars = line) ∧
        Below text m (m + i + 1) := by
  cases m with
  | zero => simp [blockBelow, getElem?_lines_ofText, Below]
  | succ m =>
    cases hopener : (ofText text).lines[m]? with
    | none =>
      rw [blockBelow, hopener]
      refine iff_of_false (by simp) fun h => ?_
      obtain ⟨-, -, chars, hchars, -⟩ := h
      rw [getElem?_lines_ofText.mpr ⟨chars, hchars, rfl⟩] at hopener
      cases hopener
    | some opener =>
      obtain ⟨chars, hchars, rfl⟩ := getElem?_lines_ofText.mp hopener
      rw [blockBelow_succ hopener, block, getElem?_takeWhile_eq_some_iff, List.getElem?_drop,
        getElem?_lines_ofText]
      refine and_congr_right fun _ => ⟨fun h => ?_, fun h j hj => ?_⟩
      · refine ⟨by omega, chars, hchars, fun k hmk hki => ?_⟩
        obtain ⟨line, hline, hstays⟩ := h (k - (m + 2)) (by omega)
        rw [List.getElem?_drop, getElem?_lines_ofText] at hline
        obtain ⟨chars', hchars', rfl⟩ := hline
        rw [show m + 1 + (k - (m + 2)) + 1 = k by omega] at hchars'
        exact ⟨chars', hchars', Line.stays_ofChars_iff.mp hstays⟩
      · obtain ⟨-, chars', hchars', hall⟩ := h
        obtain rfl : chars = chars' := Option.some.inj (hchars.symm.trans hchars')
        obtain ⟨line, hline, hstays⟩ := hall (m + 1 + j + 1) (by omega) (by omega)
        refine ⟨Line.ofChars line, ?_, Line.stays_ofChars_iff.mpr hstays⟩
        rw [List.getElem?_drop, getElem?_lines_ofText]
        exact ⟨line, hline, rfl⟩

theorem locate_eq (path : List String) :
    (ofText text).locate path = locateFrom 0 none ((ofText text).blockBelow 0) path := rfl

/-- A line that has a key is not blank. -/
theorem blank_eq_false_of_key {line : Line} (h : line ∈ (ofText text).blockBelow m)
    (hkey : line.key = some key) : line.blank = false := by
  obtain ⟨i, hi⟩ := List.mem_iff_getElem?.mp h
  obtain ⟨⟨chars, -, rfl⟩, -⟩ := getElem?_blockBelow_eq_some_iff.mp hi
  obtain ⟨hnotBlank, hnotComment, -⟩ := Line.key_ofChars.mp hkey
  rw [← Bool.not_eq_true, Line.blank_ofChars]
  exact not_or.mpr ⟨hnotBlank, hnotComment⟩

/-- The search for more keys starts again below the last one of those before, with the whole
text in sight. -/
theorem locateFrom_append_path {path : List String} (hpath : path ≠ []) (rest : List String)
    (found : Option Nat) :
    locateFrom m found ((ofText text).blockBelow m) (path ++ rest) =
      (locateFrom m found ((ofText text).blockBelow m) path).bind fun n =>
        locateFrom n (some n) ((ofText text).blockBelow n) rest := by
  induction path generalizing m found with
  | nil => exact absurd rfl hpath
  | cons key path ih =>
    rw [List.cons_append]
    by_cases hkey : ∃ line ∈ (ofText text).blockBelow m, line.key = some key
    · obtain ⟨earlier, line, later, hlines, hline, hearlier⟩ := exists_first hkey
      have hmem : line ∈ (ofText text).blockBelow m := by simp [hlines]
      have hblank := blank_eq_false_of_key hmem hline
      rw [hlines, locateFrom_append_cons hearlier hline, locateFrom_append_cons hearlier hline,
        block_eq_blockBelow hlines hblank]
      cases path with
      | nil => rfl
      | cons next path => exact ih (List.cons_ne_nil _ _) _
    · have hnone : ∀ line ∈ (ofText text).blockBelow m, line.key ≠ some key :=
        fun line hline heq => hkey ⟨line, hline, heq⟩
      rw [locateFrom_eq_none hnone, locateFrom_eq_none hnone]
      rfl

/-- A single key is found on the first line below that carries it. -/
theorem locateFrom_singleton_eq_some_iff {found : Option Nat} {n : Nat} :
    locateFrom m found ((ofText text).blockBelow m) [key] = some n ↔
      Below text m n ∧ KeyOnLine text key n ∧ ∀ k < n, Below text m k → ¬ KeyOnLine text key k := by
  have hfirst {n : Nat} (h : locateFrom m found ((ofText text).blockBelow m) [key] = some n) :
      Below text m n ∧ KeyOnLine text key n ∧
        ∀ k < n, Below text m k → ¬ KeyOnLine text key k := by
    by_cases hkey : ∃ line ∈ (ofText text).blockBelow m, line.key = some key
    · obtain ⟨earlier, line, later, hlines, hline, hearlier⟩ := exists_first hkey
      rw [hlines, locateFrom_append_cons hearlier hline] at h
      cases h
      have hat : ((ofText text).blockBelow m)[earlier.length]? = some line := by simp [hlines]
      obtain ⟨⟨chars, hchars, rfl⟩, hbelow⟩ := getElem?_blockBelow_eq_some_iff.mp hat
      refine ⟨hbelow, ⟨chars, hchars, Line.key_ofChars.mp hline⟩, ?_⟩
      rintro k hkn hk ⟨chars', hchars', hcarries⟩
      obtain ⟨j, rfl⟩ : ∃ j, k = m + j + 1 := ⟨k - m - 1, by have := hk.lt; omega⟩
      have hearly := getElem?_blockBelow_eq_some_iff.mpr ⟨⟨chars', hchars', rfl⟩, hk⟩
      rw [hlines, List.getElem?_append_left (by omega)] at hearly
      exact hearlier _ (List.mem_of_getElem? hearly) (Line.key_ofChars.mpr hcarries)
    · rw [locateFrom_eq_none fun line hline heq => hkey ⟨line, hline, heq⟩] at h
      cases h
  refine ⟨hfirst, fun ⟨hbelow, ⟨chars, hchars, hcarries⟩, hleast⟩ => ?_⟩
  obtain ⟨i, rfl⟩ : ∃ i, n = m + i + 1 := ⟨n - m - 1, by have := hbelow.lt; omega⟩
  have hat := getElem?_blockBelow_eq_some_iff.mpr ⟨⟨chars, hchars, rfl⟩, hbelow⟩
  obtain ⟨earlier, line, later, hlines, hline, hearlier⟩ :=
    exists_first ⟨_, List.mem_of_getElem? hat, Line.key_ofChars.mpr hcarries⟩
  have hfound : locateFrom m found ((ofText text).blockBelow m) [key] =
      some (m + earlier.length + 1) := by
    rw [hlines, locateFrom_append_cons hearlier hline]
    rfl
  -- both lines are the first one that carries the key
  obtain ⟨hbelow', hkey', hleast'⟩ := hfirst hfound
  rw [hfound, Option.some_inj]
  rcases Nat.lt_trichotomy (m + earlier.length + 1) (m + i + 1) with hlt | heq | hlt
  · exact absurd hkey' (hleast _ hlt hbelow')
  · exact heq
  · exact absurd ⟨chars, hchars, hcarries⟩ (hleast' _ hlt hbelow)

end LineIndex

/-! ## Paths of keys -/

section Paths

variable {text key : String} {path : List String}

/-- The search for the next key goes on below a line: that of the last key so far, or no line
at all. -/
inductive Reached (text : String) : List String → Nat → Prop where
  | start : Reached text [] 0
  | found {path : List String} {m : Nat} (h : (LineIndex.ofText text).locate path = some m) :
      Reached text path m

theorem reached_iff_of_ne_nil (hpath : path ≠ []) {m : Nat} :
    Reached text path m ↔ (LineIndex.ofText text).locate path = some m := by
  refine ⟨?_, .found⟩
  rintro (- | h)
  · exact absurd rfl hpath
  · exact h

theorem Reached.unique {m n : Nat} (h : Reached text path m) (h' : Reached text path n) :
    m = n := by
  rcases eq_or_ne path [] with rfl | hpath
  · have hzero {m : Nat} (h : Reached text [] m) : m = 0 := by
      cases h with
      | start => rfl
      | found hnone => cases hnone
    rw [hzero h, hzero h']
  · rw [reached_iff_of_ne_nil hpath] at h h'
    exact Option.some.inj (h.symm.trans h')

/-- The next key is found on the first line that carries it, of those below the key before. -/
theorem locate_concat_eq_some_iff {n : Nat} :
    (LineIndex.ofText text).locate (path ++ [key]) = some n ↔
      ∃ m, Reached text path m ∧ Below text m n ∧ KeyOnLine text key n ∧
        ∀ k < n, Below text m k → ¬ KeyOnLine text key k := by
  rcases eq_or_ne path [] with rfl | hpath
  · have hstart : (LineIndex.ofText text).locate ([] ++ [key]) = some n ↔ _ :=
      LineIndex.locateFrom_singleton_eq_some_iff (m := 0)
    rw [hstart]
    refine ⟨fun h => ⟨0, .start, h⟩, fun ⟨m, hm, h⟩ => ?_⟩
    rwa [hm.unique .start] at h
  · rw [LineIndex.locate_eq, LineIndex.locateFrom_append_path hpath, Option.bind_eq_some_iff]
    refine exists_congr fun m => ?_
    rw [LineIndex.locateFrom_singleton_eq_some_iff, ← LineIndex.locate_eq,
      ← reached_iff_of_ne_nil hpath]

/-- Nothing is found below a path that is not found itself, or if no line below it carries the
next key. -/
theorem locate_concat_eq_none_iff :
    (LineIndex.ofText text).locate (path ++ [key]) = none ↔
      ∀ m, Reached text path m → ∀ n, Below text m n → ¬ KeyOnLine text key n := by
  constructor
  · intro hnone m hm n hn hkey
    induction n using Nat.strong_induction_on with
    | _ n ih =>
      have hfound := locate_concat_eq_some_iff.mpr ⟨m, hm, hn, hkey, ih⟩
      rw [hnone] at hfound
      cases hfound
  · intro h
    refine Option.eq_none_iff_forall_ne_some.mpr fun n hn => ?_
    obtain ⟨m, hm, hbelow, hkey, -⟩ := locate_concat_eq_some_iff.mp hn
    exact h m hm n hbelow hkey

/-- The keys of a path are found on lines that follow each other, each in the blocks of all the
lines before. -/
structure FoundAlong (text : String) (path : List String) (lines : List Nat) : Prop where
  length_eq : lines.length = path.length
  located : ∀ i < path.length,
    (LineIndex.ofText text).locate (path.take (i + 1)) = lines[i]?
  ascending : lines.Pairwise (· < ·)
  keys : List.Forall₂ (KeyOnLine text) path lines
  enclosed : lines.Pairwise (InBlock text)

theorem FoundAlong.singleton {n : Nat} (h : (LineIndex.ofText text).locate [key] = some n)
    (hkey : KeyOnLine text key n) : FoundAlong text [key] [n] where
  length_eq := rfl
  located i hi := by
    obtain rfl : i = 0 := Nat.lt_one_iff.mp hi
    exact h
  ascending := List.pairwise_singleton _ n
  keys := .cons hkey .nil
  enclosed := List.pairwise_singleton _ n

/-- A key in the block of the last line is in the blocks of all lines. -/
theorem FoundAlong.concat {lines : List Nat} {last : String} {m n : Nat}
    (h : FoundAlong text path (lines ++ [m])) (hlast : KeyOnLine text last m)
    (hn : (LineIndex.ofText text).locate (path ++ [key]) = some n) (hkey : KeyOnLine text key n)
    (hblock : InBlock text m n) : FoundAlong text (path ++ [key]) (lines ++ [m] ++ [n]) := by
  have henclosed : ∀ l ∈ lines ++ [m], InBlock text l n := by
    intro l hl
    rcases List.mem_append.mp hl with hl | hl
    · have houter := (List.pairwise_append.mp h.enclosed).2.2 l hl m (List.mem_singleton_self m)
      exact houter.trans hlast hblock
    · rwa [List.mem_singleton.mp hl]
  generalize lines ++ [m] = lines at h henclosed ⊢
  refine ⟨?_, fun i hi => ?_, ?_, List.rel_append h.keys (.cons hkey .nil), ?_⟩
  · rw [List.length_append, List.length_append, h.length_eq]
    rfl
  · rw [List.length_append, List.length_singleton] at hi
    rcases Nat.lt_succ_iff_lt_or_eq.mp hi with hi | rfl
    · rw [List.take_append_of_le_length hi, h.located i hi,
        List.getElem?_append_left (h.length_eq ▸ hi)]
    · rw [List.take_of_length_le (by simp), hn, ← h.length_eq, List.getElem?_concat_length]
  · rw [List.pairwise_append]
    refine ⟨h.ascending, List.pairwise_singleton _ n, fun l hl n' hn' => ?_⟩
    rw [List.mem_singleton.mp hn']
    exact (henclosed l hl).1
  · rw [List.pairwise_append]
    refine ⟨h.enclosed, List.pairwise_singleton _ n, fun l hl n' hn' => ?_⟩
    rw [List.mem_singleton.mp hn']
    exact henclosed l hl

theorem KeyOnLine.pos {n : Nat} (h : KeyOnLine text key n) : 0 < n := by
  obtain ⟨line, hline, -⟩ := h
  cases n with
  | zero => cases hline
  | succ n => exact Nat.succ_pos n

/-- The keys before the one that is found are found on the way. -/
theorem exists_foundAlong {n : Nat} (h : (LineIndex.ofText text).locate path = some n) :
    ∃ lines last, FoundAlong text path (lines ++ [n]) ∧ KeyOnLine text last n := by
  induction path using List.reverseRecOn generalizing n with
  | nil => cases h
  | append_singleton path key ih =>
    obtain ⟨m, hm, hbelow, hkey, -⟩ := locate_concat_eq_some_iff.mp h
    cases hm with
    | start => exact ⟨[], key, .singleton h hkey, hkey⟩
    | found hfound =>
      obtain ⟨lines, last, halong, hlast⟩ := ih hfound
      obtain ⟨m, rfl⟩ := Nat.exists_eq_add_one.mpr hlast.pos
      exact ⟨_, key, halong.concat hlast h hkey hbelow, hkey⟩

/-- A path is not found exactly if one of its keys is not to be found below those before. -/
theorem locate_eq_none_iff (hpath : path ≠ []) :
    (LineIndex.ofText text).locate path = none ↔
      ∃ before key after m, path = before ++ key :: after ∧ Reached text before m ∧
        ∀ n, Below text m n → ¬ KeyOnLine text key n := by
  constructor
  · intro hnone
    induction path using List.reverseRecOn with
    | nil => exact absurd rfl hpath
    | append_singleton path key ih =>
      by_cases hreached : ∃ m, Reached text path m
      · obtain ⟨m, hm⟩ := hreached
        exact ⟨path, key, [], m, rfl, hm, locate_concat_eq_none_iff.mp hnone m hm⟩
      · have hne : path ≠ [] := fun hnil => hreached ⟨0, hnil ▸ .start⟩
        have hunfound : (LineIndex.ofText text).locate path = none :=
          Option.eq_none_iff_forall_ne_some.mpr fun m hm => hreached ⟨m, .found hm⟩
        obtain ⟨before, key', after, m, rfl, hm, habsent⟩ := ih hne hunfound
        exact ⟨before, key', after ++ [key], m, by simp, hm, habsent⟩
  · rintro ⟨before, key, after, m, rfl, hm, habsent⟩
    clear hpath
    induction after using List.reverseRecOn with
    | nil =>
      refine locate_concat_eq_none_iff.mpr fun m' hm' => ?_
      rwa [hm'.unique hm]
    | append_singleton after last ih =>
      rw [← List.cons_append, ← List.append_assoc]
      refine locate_concat_eq_none_iff.mpr fun m' hm' => ?_
      rw [reached_iff_of_ne_nil (by simp), ih] at hm'
      cases hm'

/-- The keys of a path that is found are on lines one after the other, with all beginnings of
the path found on the way, and every line is in the blocks of all those before: from there on
all lines are blank, comments, or indented deeper.  A path is not found exactly if below some
beginning of it no line carries the next key. -/
theorem locate_staysInBlocks (text : String) {path : List String} (hpath : path ≠ []) :
    (∀ n, (LineIndex.ofText text).locate path = some n →
        ∃ lines, FoundAlong text path lines ∧ lines.getLast? = some n) ∧
      ((LineIndex.ofText text).locate path = none ↔
        ∃ before key after m, path = before ++ key :: after ∧ Reached text before m ∧
          ∀ n, Below text m n → ¬ KeyOnLine text key n) := by
  refine ⟨fun n hn => ?_, locate_eq_none_iff hpath⟩
  obtain ⟨lines, -, halong, -⟩ := exists_foundAlong hn
  exact ⟨lines ++ [n], halong, List.getLast?_concat⟩

/-- Two operations, one of them not indented deep enough to belong to the path before it. -/
def petsText : String := "paths:\n  /pets:\n\n# dogs\n    get:\n  put:\n"

/-- The first operation is found below the path, the second one is not. -/
theorem locate_staysInBlocks_petsText :
    FoundAlong petsText ["paths", "/pets", "get"] [1, 2, 5] ∧
      ∃ before key after m, ["paths", "/pets", "put"] = before ++ key :: after ∧
        Reached petsText before m ∧ ∀ n, Below petsText m n → ¬ KeyOnLine petsText key n := by
  constructor
  · have hget : (LineIndex.ofText petsText).locate ["paths", "/pets", "get"] = some 5 := by
      decide +kernel
    obtain ⟨lines, halong, -⟩ := (locate_staysInBlocks petsText (by simp)).1 5 hget
    have hlines : lines = [1, 2, 5] := by
      refine List.ext_getElem? fun i => ?_
      rcases Nat.lt_or_ge i 3 with hi | hi
      · rw [← halong.located i hi]
        decide +revert +kernel
      · rw [List.getElem?_eq_none (halong.length_eq ▸ hi), List.getElem?_eq_none hi]
    rwa [← hlines]
  · exact (locate_staysInBlocks petsText (by simp)).2.mp (by decide +kernel)

end Paths

end ProviderSchema.OpenApi
