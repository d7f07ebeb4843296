import ProviderSchema.Proofs.OpenApi.BlockMapping

/-!
# Looking for keys in block style

In the text of a mapping `LineIndex.locate` looks for the keys of a path, each
in the block of the one before, and takes the first line that has the key.
Whether that is the line on which the key of the path is written depends on
what else is written before it: `BlockMapping.FindsFirst` says that no key of
the path occurs below an earlier sibling, and that none holds a colon, because
such keys are not read.

`locate_text_eq_some_iff` states that this is the exact condition.  If it
fails, the line of another key is returned, or none
(`not_forall_locate_text_eq_some`).
-/

namespace ProviderSchema.OpenApi

/-! ## The search -/

namespace LineIndex

variable {before : Nat} {found : Option Nat} {lines : List Line} {key : String}
  {path : List String}

theorem locateFrom_eq_none (h : ∀ line ∈ lines, line.key ≠ some key) :
    locateFrom before found lines (key :: path) = none := by
  have hnone : (lines.findIdx? fun line => line.key = some key) = none := by
    rw [List.findIdx?_eq_none_iff]
    intro line hline
    simpa using h line hline
  rw [locateFrom, hnone]

/-- The first line that has the key is taken. -/
theorem locateFrom_append_cons {line : Line} (h : ∀ line ∈ lines, line.key ≠ some key)
    (hkey : line.key = some key) (after : List Line) :
    locateFrom before found (lines ++ line :: after) (key :: path) =
      locateFrom (before + lines.length + 1) (some (before + lines.length + 1))
        (block line.indent after) path := by
  have hfirst : ((lines ++ line :: after).findIdx? fun line => line.key = some key) =
      some lines.length := by
    rw [List.findIdx?_append, List.findIdx?_eq_none_iff.mpr (by simpa using h)]
    simp [List.findIdx?_cons, hkey]
  rw [locateFrom, hfirst]
  simp

/-- If a line has the key, there is a first one. -/
theorem exists_first (h : ∃ line ∈ lines, line.key = some key) :
    ∃ earlier line later, lines = earlier ++ line :: later ∧ line.key = some key ∧
      ∀ line ∈ earlier, line.key ≠ some key := by
  induction lines with
  | nil => simp at h
  | cons line rest ih =>
    by_cases hkey : line.key = some key
    · exact ⟨[], line, rest, rfl, hkey, by simp⟩
    · rw [List.exists_mem_cons_iff, or_iff_right hkey] at h
      obtain ⟨earlier, first, later, rfl, hfirst, hearlier⟩ := ih h
      exact ⟨line :: earlier, first, later, rfl, hfirst, List.forall_mem_cons.mpr ⟨hkey, hearlier⟩⟩

/-- Lines that do not have the key are passed over. -/
theorem locateFrom_append (h : ∀ line ∈ lines, line.key ≠ some key) (after : List Line) :
    locateFrom before found (lines ++ after) (key :: path) =
      locateFrom (before + lines.length) found after (key :: path) := by
  by_cases hafter : ∃ line ∈ after, line.key = some key
  · obtain ⟨earlier, line, later, rfl, hkey, hearlier⟩ := exists_first hafter
    have hboth : ∀ line ∈ lines ++ earlier, line.key ≠ some key :=
      List.forall_mem_append.mpr ⟨h, hearlier⟩
    rw [← List.append_assoc, locateFrom_append_cons hboth hkey,
      locateFrom_append_cons hearlier hkey, List.length_append, ← Nat.add_assoc before]
  · have hnone : ∀ line ∈ after, line.key ≠ some key := by simpa using hafter
    rw [locateFrom_eq_none hnone, locateFrom_eq_none (List.forall_mem_append.mpr ⟨h, hnone⟩)]

/-- What is found stands in the lines that are searched, or was found before. -/
theorem le_of_locateFrom_eq_some {n : Nat} (hfound : ∀ m, found = some m → m ≤ before)
    (h : locateFrom before found lines path = some n) : n ≤ before + lines.length := by
  induction path generalizing before found lines with
  | nil => exact Nat.le_add_right_of_le (hfound n h)
  | cons key path ih =>
    by_cases hkey : ∃ line ∈ lines, line.key = some key
    · obtain ⟨earlier, line, later, rfl, hline, hearlier⟩ := exists_first hkey
      rw [locateFrom_append_cons hearlier hline] at h
      have hle := ih (by rintro m ⟨⟩; exact Nat.le_refl _) h
      have hblock : (block line.indent later).length ≤ later.length :=
        (List.takeWhile_sublist _).length_le
      rw [List.length_append, List.length_cons]
      omega
    · rw [locateFrom_eq_none (by simpa using hkey)] at h
      cases h

end LineIndex

namespace BlockMapping

variable {m below rest : BlockMapping} {key name : String} {path above : List String}

/-! ## The lines of a mapping -/

/-- Where a line of a mapping stands: it is that of the first key, or below it,
or after that. -/
theorem getElem?_linesAt_entry {i : Nat} {line : List String × List Char}
    (h : (linesAt above (.entry key below rest))[i]? = some line) :
    (i = 0 ∧ line.1 = above ++ [key]) ∨
      (∃ j, i = j + 1 ∧ (linesAt (above ++ [key]) below)[j]? = some line) ∨
      ∃ j, i = (below.index (above.length + 1)).length + 1 + j ∧
        (linesAt above rest)[j]? = some line := by
  rw [linesAt] at h
  cases i with
  | zero =>
    cases h
    exact .inl ⟨rfl, rfl⟩
  | succ j =>
    rw [List.getElem?_cons_succ, List.getElem?_append] at h
    have hlength := length_index (above.length + 1) (above ++ [key]) below
    split at h
    · exact .inr (.inl ⟨j, rfl, h⟩)
    · refine .inr (.inr ⟨j - (linesAt (above ++ [key]) below).length, ?_, h⟩)
      omega

/-- The lines of a mapping belong to its keys and to what is below them. -/
theorem exists_eq_append_of_mem_linesAt {line : List String × List Char}
    (h : line ∈ m.linesAt above) : ∃ key ∈ m.names, ∃ path, line.1 = above ++ key :: path := by
  induction m generalizing above with
  | empty => cases h
  | entry key below rest ihbelow ihrest =>
    rw [linesAt, List.mem_cons, List.mem_append] at h
    rcases h with rfl | h | h
    · exact ⟨key, List.mem_cons_self, [], rfl⟩
    · obtain ⟨name, -, path, hline⟩ := ihbelow h
      exact ⟨key, List.mem_cons_self, name :: path, by rw [hline, List.append_assoc]; rfl⟩
    · obtain ⟨name, hname, path, hline⟩ := ihrest h
      exact ⟨name, List.mem_cons_of_mem _ hname, path, hline⟩

/-! ## What is found -/

/-- Each key of the path is the first one of its name to be read in the block of
the key before it: it holds no colon, and it does not occur below an earlier
sibling. -/
def FindsFirst : BlockMapping → List String → Prop
  | .empty, path => path = []
  | .entry _ _ _, [] => True
  | .entry name below rest, key :: path =>
    if name = key then ':' ∉ key.toList ∧ below.FindsFirst path
    else key ∉ below.keys ∧ rest.FindsFirst (key :: path)

instance decidableFindsFirst : (m : BlockMapping) → DecidablePred m.FindsFirst
  | .empty, path => inferInstanceAs (Decidable (path = []))
  | .entry _ _ _, [] => .isTrue trivial
  | .entry name below rest, key :: path =>
    have := decidableFindsFirst below path
    have := decidableFindsFirst rest (key :: path)
    inferInstanceAs (Decidable (if name = key then ':' ∉ key.toList ∧ below.FindsFirst path
      else key ∉ below.keys ∧ rest.FindsFirst (key :: path)))

theorem findsFirst_nil (m : BlockMapping) : m.FindsFirst [] := by
  cases m with
  | empty => rfl
  | entry => trivial

/-- A key with a colon is found nowhere. -/
theorem locateFrom_index_of_mem {before : Nat} {found : Option Nat} {depth : Nat}
    (hcolon : ':' ∈ key.toList) :
    LineIndex.locateFrom before found (m.index depth) (key :: path) = none :=
  LineIndex.locateFrom_eq_none fun _ hline hkey => (mem_keys_of_mem_index hline hkey).2 hcolon

theorem not_findsFirst_of_mem (hcolon : ':' ∈ key.toList) : ¬ m.FindsFirst (key :: path) := by
  induction m with
  | empty => exact List.cons_ne_nil _ _
  | entry name below rest _ ihrest =>
    rw [FindsFirst]
    split
    · exact fun h => h.1 hcolon
    · exact fun h => ihrest h.2

theorem readKey_ne_some (h : name ≠ key) : readKey name ≠ some key := by
  rw [readKey]
  split
  · simp
  · simpa using h

/-- The search for the first key of a mapping goes on below it. -/
theorem locateFrom_index_own {before : Nat} {found : Option Nat} (depth : Nat)
    (hcolon : ':' ∉ key.toList) :
    LineIndex.locateFrom before found (index depth (.entry key below rest)) (key :: path) =
      LineIndex.locateFrom (before + 1) (some (before + 1)) (below.index (depth + 1)) path := by
  have hread : (⟨2 * depth, readKey key, false⟩ : Line).key = some key := if_neg hcolon
  have hfirst := @LineIndex.locateFrom_append_cons before found [] key path _ (by simp) hread
    (below.index (depth + 1) ++ rest.index depth)
  rw [block_index] at hfirst
  exact hfirst

/-- A key that occurs neither first nor below the first key is looked for after
that. -/
theorem locateFrom_index_rest {before : Nat} {found : Option Nat} (depth : Nat) (hname : name ≠ key)
    (hmem : key ∉ below.keys) :
    LineIndex.locateFrom before found (index depth (.entry name below rest)) (key :: path) =
      LineIndex.locateFrom (before + ((below.index (depth + 1)).length + 1)) found
        (rest.index depth) (key :: path) := by
  have hnone : ∀ line ∈ (⟨2 * depth, readKey name, false⟩ : Line) :: below.index (depth + 1),
      line.key ≠ some key := by
    rw [List.forall_mem_cons]
    exact ⟨readKey_ne_some hname, fun line hline hkey => hmem (mem_keys_of_mem_index hline hkey).1⟩
  rw [index, ← List.cons_append, LineIndex.locateFrom_append hnone, List.length_cons]

/-- If a key occurs below an earlier sibling, what is found stands there. -/
theorem le_of_locateFrom_index {before n : Nat} {found : Option Nat} {depth : Nat}
    (hname : name ≠ key) (hmem : key ∈ below.keys) (hcolon : ':' ∉ key.toList)
    (h : LineIndex.locateFrom before found (index depth (.entry name below rest)) (key :: path) =
      some n) :
    n ≤ before + ((below.index (depth + 1)).length + 1) := by
  obtain ⟨earlier, line, later, hlines, hkey, hearlier⟩ :=
    LineIndex.exists_first (exists_mem_index_of_mem_keys hmem hcolon (depth + 1))
  have hline : line ∈ below.index (depth + 1) := by simp [hlines]
  have hindent := (le_indent_of_mem_index hline).1
  have hnone : ∀ l ∈ (⟨2 * depth, readKey name, false⟩ : Line) :: earlier, l.key ≠ some key :=
    List.forall_mem_cons.mpr ⟨readKey_ne_some hname, hearlier⟩
  rw [index, hlines, List.append_assoc, List.cons_append, ← List.cons_append,
    LineIndex.locateFrom_append_cons hnone hkey, block_append_index (by omega)] at h
  have hle := LineIndex.le_of_locateFrom_eq_some (by rintro m ⟨⟩; exact Nat.le_refl _) h
  have hblock : (LineIndex.block line.indent later).length ≤ later.length :=
    (List.takeWhile_sublist _).length_le
  rw [List.length_cons] at hle
  rw [hlines, List.length_append, List.length_cons]
  omega

/-- In the lines of a mapping the key at a path is found exactly if the search
meets no other key of its name first. -/
theorem locateFrom_index_eq_some_iff (h : m.WellFormed) (above : List String) (before : Nat)
    (found : Option Nat) {i : Nat} {written : List Char}
    (hline : (m.linesAt above)[i]? = some (above ++ path, written)) :
    LineIndex.locateFrom before found (m.index above.length) path = some (before + i + 1) ↔
      m.FindsFirst path := by
  induction m generalizing above path before found i with
  | empty => simp [linesAt] at hline
  | entry name below rest ihbelow ihrest =>
    obtain ⟨-, hnotMem, hbelow, hrest⟩ := h
    obtain ⟨first, hfirst, others, hpath⟩ :=
      exists_eq_append_of_mem_linesAt (List.mem_of_getElem? hline)
    obtain rfl : path = first :: others := List.append_cancel_left hpath
    by_cases hcolon : ':' ∈ first.toList
    · rw [locateFrom_index_of_mem hcolon]
      exact iff_of_false (by simp) (not_findsFirst_of_mem hcolon)
    rw [FindsFirst]
    rcases getElem?_linesAt_entry hline with ⟨rfl, hown⟩ | ⟨j, rfl, hline'⟩ | ⟨j, rfl, hline'⟩
    · -- the line of the first key itself
      obtain ⟨rfl, rfl⟩ := List.cons.inj (List.append_cancel_left hown)
      rw [locateFrom_index_own _ hcolon, if_pos rfl]
      exact iff_of_true rfl ⟨hcolon, findsFirst_nil below⟩
    · -- a line below the first key
      obtain ⟨second, -, later, hsecond⟩ :=
        exists_eq_append_of_mem_linesAt (List.mem_of_getElem? hline')
      rw [List.append_assoc] at hsecond
      obtain ⟨rfl, -⟩ := List.cons.inj (List.append_cancel_left hsecond)
      have habove : above ++ first :: others = above ++ [first] ++ others := by simp
      have ih := ihbelow hbelow (above ++ [first]) (before + 1) (some (before + 1))
        (habove ▸ hline')
      rw [List.length_append, List.length_singleton] at ih
      rw [locateFrom_index_own _ hcolon, if_pos rfl, and_iff_right hcolon, ← ih,
        show before + (j + 1) + 1 = before + 1 + j + 1 by omega]
    · -- a line after all of these
      obtain ⟨again, hagain, later, hlater⟩ :=
        exists_eq_append_of_mem_linesAt (List.mem_of_getElem? hline')
      obtain ⟨rfl, -⟩ := List.cons.inj (List.append_cancel_left hlater)
      have hname : name ≠ first := fun heq => hnotMem (heq ▸ hagain)
      rw [if_neg hname]
      by_cases hmem : first ∈ below.keys
      · refine iff_of_false (fun hfound => ?_) fun h => h.1 hmem
        have hle := le_of_locateFrom_index hname hmem hcolon hfound
        omega
      · have ih := ihrest hrest above (before + ((below.index (above.length + 1)).length + 1))
          found hline'
        rw [locateFrom_index_rest _ hname hmem, and_iff_right hmem, ← ih]
        simp only [Nat.add_assoc]

/-- The line on which a key is written is found from the path of the key if and
only if the search meets no other key of its name first. -/
theorem locate_text_eq_some_iff (h : m.WellFormed) {i : Nat} {path : List String}
    {written : List Char} (hline : m.lines[i]? = some (path, written)) :
    (LineIndex.ofText m.text).locate path = some (i + 1) ↔ m.FindsFirst path := by
  rw [LineIndex.locate, lines_ofText_text h, ← locateFrom_index_eq_some_iff h [] 0 none hline,
    Nat.zero_add]
  rfl

/-- The operations of some paths. -/
def operations : BlockMapping :=
  .entry "openapi" .empty <|
    .entry "paths"
      (.entry "/pets" (.entry "get" .empty (.entry "post" .empty .empty))
        (.entry "/pets:sell" (.entry "post" .empty .empty)
          (.entry "/owners" (.entry "get" .empty .empty) .empty)))
      (.entry "get" .empty .empty)

/-- The operation on the owners of pets is found, although another one of its
name is written before it. -/
theorem locate_text_operations :
    operations.WellFormed ∧
      operations.lines[8]? = some (["paths", "/owners", "get"], "    get:".toList) ∧
      (LineIndex.ofText operations.text).locate ["paths", "/owners", "get"] = some 9 := by
  have hwell : operations.WellFormed := by decide +kernel
  have hline : operations.lines[8]? = some (["paths", "/owners", "get"], "    get:".toList) :=
    rfl
  exact ⟨hwell, hline, (locate_text_eq_some_iff hwell hline).mpr (by decide +kernel)⟩

/-- Not every key is found where it is written: instead of the key `get` of the
document, that below a path is found, and a key with a colon is not found at
all. -/
theorem not_forall_locate_text_eq_some :
    ¬ ∀ (m : BlockMapping) (i : Nat) (path : List String) (written : List Char), m.WellFormed →
      m.lines[i]? = some (path, written) →
        (LineIndex.ofText m.text).locate path = some (i + 1) := by
  intro h
  have hget := h operations 9 ["get"] "get:".toList (by decide +kernel) rfl
  exact absurd hget (by decide +kernel)

end BlockMapping

end ProviderSchema.OpenApi
