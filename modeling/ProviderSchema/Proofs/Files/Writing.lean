import ProviderSchema.Files.State
import ProviderSchema.Proofs.Document.MergeByKey

/-!
# Writing files

A path leads to a place: its names are entered one after the other, from the
working directory (`PathName.place`).  What is written to a path is put at its
place (`FileState.write_eq_ok`), because the path of the directory that holds a
file has all of its names but the last one
(`PathName.steps_eq_steps_parent_append`).

`FileState.ChangedOnlyAt` says what that means for the files: the file at the
place has the text, no other file is changed, and the directories that are new
are those above the place.
-/

namespace ProviderSchema

namespace PathName

variable {path : String}

/-! ## The names along a path -/

/-- The names between slashes that count. -/
def namesIn (chars : List Char) : List String :=
  (partsFrom [] chars).filter fun part => part ≠ "" && part ≠ "."

theorem steps_eq (path : String) :
    steps path =
      if path.toList.head? = some '/' then "/" :: namesIn path.toList else namesIn path.toList :=
  rfl

theorem partsFrom_of_notMem {chars : List Char} (h : '/' ∉ chars) (current : List Char) :
    partsFrom current chars = [String.ofList (current.reverse ++ chars)] := by
  induction chars generalizing current with
  | nil => rw [partsFrom, List.append_nil]
  | cons c rest ih =>
    rw [List.mem_cons, not_or] at h
    rw [partsFrom, ih h.2, List.reverse_cons, List.append_assoc, List.singleton_append]
    exact fun hc => h.1 hc.symm

theorem partsFrom_append_slash (before rest current : List Char) :
    partsFrom current (before ++ '/' :: rest) = partsFrom current before ++ partsFrom [] rest := by
  induction before generalizing current with
  | nil => rfl
  | cons c before ih =>
    by_cases hc : c = '/'
    · subst hc
      rw [List.cons_append, partsFrom, partsFrom, ih, List.cons_append]
    · rw [List.cons_append, partsFrom, partsFrom, ih]
      · exact hc
      · exact hc

theorem namesIn_append_slash (before rest : List Char) :
    namesIn (before ++ '/' :: rest) = namesIn before ++ namesIn rest := by
  rw [namesIn, partsFrom_append_slash, List.filter_append]
  rfl

theorem namesIn_append_replicate (before : List Char) (n : Nat) :
    namesIn (before ++ List.replicate n '/') = namesIn before := by
  induction n with
  | zero => rw [List.replicate_zero, List.append_nil]
  | succ n ih =>
    rw [List.replicate_succ', ← List.append_assoc, namesIn_append_slash, ih]
    exact List.append_nil _

/-- A text is a name, or a name stands behind its last slash. -/
theorem exists_last_name (chars : List Char) :
    ∃ name, '/' ∉ name ∧ (chars = name ∨ ∃ before, chars = before ++ '/' :: name) := by
  induction chars with
  | nil => exact ⟨[], by simp, .inl rfl⟩
  | cons c rest ih =>
    obtain ⟨name, hname, rfl | ⟨before, rfl⟩⟩ := ih
    · by_cases hc : c = '/'
      · exact ⟨rest, hname, .inr ⟨[], by rw [hc]; rfl⟩⟩
      · refine ⟨c :: rest, ?_, .inl rfl⟩
        rw [List.mem_cons, not_or]
        exact ⟨fun h => hc h.symm, hname⟩
    · exact ⟨name, hname, .inr ⟨c :: before, rfl⟩⟩

section Parent

variable {before name : List Char}

/-- The name and the slashes behind it are what is left out of a path. -/
theorem dropWhile_reverse_name (hname : '/' ∉ name) (hne : name ≠ []) (above : List Char) :
    ((name.reverse ++ above).dropWhile (· = '/')).dropWhile (· ≠ '/') =
      above.dropWhile (· ≠ '/') := by
  have hall : ∀ c ∈ name.reverse, c ≠ '/' := fun c hc heq =>
    hname (List.mem_reverse.mp (heq ▸ hc))
  have hkeep : (name.reverse ++ above).dropWhile (· = '/') = name.reverse ++ above := by
    cases hreverse : name.reverse with
    | nil => exact absurd (List.reverse_eq_nil_iff.mp hreverse) hne
    | cons c rest =>
      have hc := hall c (hreverse ▸ List.mem_cons_self)
      rw [List.cons_append, List.dropWhile_cons_of_neg (by simpa using hc)]
  rw [hkeep, List.dropWhile_append_of_pos]
  intro c hc
  simpa using hall c hc

theorem parent_of_name (hname : '/' ∉ name) (hne : name ≠ []) (hpath : path.toList = name) :
    parent path = "" := by
  have habove := dropWhile_reverse_name hname hne []
  rw [List.append_nil] at habove
  rw [parent, hpath, habove]
  rfl

theorem parent_of_append (hname : '/' ∉ name) (hne : name ≠ [])
    (hpath : path.toList = before ++ '/' :: name) :
    parent path =
      if before.reverse.dropWhile (· = '/') = [] then "/"
      else String.ofList (before.reverse.dropWhile (· = '/')).reverse := by
  rw [parent, hpath, List.reverse_append, List.reverse_cons, List.append_assoc,
    List.singleton_append, dropWhile_reverse_name hname hne, List.dropWhile_cons_of_neg (by simp),
    List.dropWhile_cons_of_pos (by simp)]
  simp

/-- The slashes at the end of a text count for nothing. -/
theorem eq_append_replicate (before : List Char) :
    ∃ n, before = (before.reverse.dropWhile (· = '/')).reverse ++ List.replicate n '/' := by
  have hslashes : ∀ c ∈ before.reverse.takeWhile (· = '/'), c = '/' := fun c hc => by
    simpa using List.all_eq_true.mp List.all_takeWhile c hc
  have hsplit := congrArg List.reverse
    (List.takeWhile_append_dropWhile (p := (· = '/')) (l := before.reverse))
  rw [List.reverse_append, List.reverse_reverse, List.eq_replicate_of_mem hslashes,
    List.reverse_replicate] at hsplit
  exact ⟨_, hsplit.symm⟩

theorem steps_eq_of_append (hname : '/' ∉ name) (hne : name ≠ [])
    (hpath : path.toList = before ++ '/' :: name) :
    steps path = steps (parent path) ++ namesIn name := by
  obtain ⟨n, hbefore⟩ := eq_append_replicate before
  have hparent := parent_of_append hname hne hpath
  generalize before.reverse.dropWhile (· = '/') = kept at hbefore hparent
  have hnames : namesIn (before ++ '/' :: name) = namesIn kept.reverse ++ namesIn name := by
    rw [namesIn_append_slash, hbefore, namesIn_append_replicate]
  rw [steps_eq, hpath, hnames, hparent]
  by_cases hkept : kept = []
  · subst hkept
    have hhead : (before ++ '/' :: name).head? = some '/' := by
      rw [hbefore]
      cases n <;> rfl
    rw [if_pos hhead, if_pos rfl]
    rfl
  · have hhead : (before ++ '/' :: name).head? = kept.reverse.head? := by
      rw [hbefore, List.append_assoc, List.head?_append]
      cases hreverse : kept.reverse with
      | nil => exact absurd (List.reverse_eq_nil_iff.mp hreverse) hkept
      | cons => rfl
    rw [if_neg hkept, steps_eq, String.toList_ofList, hhead]
    split <;> rfl

end Parent

/-- The path of the directory that holds a file has all names of the path of the
file but the last one. -/
theorem steps_eq_steps_parent_append (h : namesDirectory path = false) :
    ∃ name, steps path = steps (parent path) ++ [name] := by
  obtain ⟨name, hname, hpath⟩ := exists_last_name path.toList
  refine ⟨String.ofList name, ?_⟩
  have hlast : (parts path).getLast? = some (String.ofList name) := by
    rw [parts]
    rcases hpath with hpath | ⟨before, hpath⟩
    · rw [hpath, partsFrom_of_notMem hname]
      rfl
    · rw [hpath, partsFrom_append_slash, partsFrom_of_notMem hname, List.getLast?_append]
      rfl
  rw [namesDirectory, hlast] at h
  simp only [Option.some.injEq, Bool.or_eq_false_iff, decide_eq_false_iff_not] at h
  obtain ⟨⟨hempty, hdot⟩, -⟩ := h
  have hne : name ≠ [] := fun hnil => hempty (by rw [hnil])
  have hnames : namesIn name = [String.ofList name] := by
    rw [namesIn, partsFrom_of_notMem hname]
    simp [hempty, hdot]
  rcases hpath with hpath | ⟨before, hpath⟩
  · have hhead : name.head? ≠ some '/' := fun h => hname (List.mem_of_head? h)
    rw [parent_of_name hname hne hpath, steps_eq, hpath, if_neg hhead, hnames]
    rfl
  · rw [steps_eq_of_append hname hne hpath, hnames]

/-- The place that a path leads to. -/
def place (path : String) : List String := (steps path).foldl FileState.enter []

end PathName

namespace FileState

variable {s s' : FileState} {path text : String} {place names : List String}

/-! ## What is at a place -/

theorem create_eq_ok {next : List String} (h : s.create place names = .ok next) :
    next = names.foldl enter place := by
  induction names generalizing place with
  | nil =>
    cases h
    rfl
  | cons name rest ih =>
    rw [create] at h
    split at h
    · cases h
    · exact ih h

/-- A text that can be written is put at the place of its path. -/
theorem write_eq_ok (h : s.write path text = .ok s') : s' = s.put (PathName.place path) text := by
  unfold write at h
  split at h
  · cases h
  rename_i above habove
  split at h
  · cases h
  rename_i name hname
  dsimp only at h
  split at h
  · cases h
  rename_i hfile
  cases h
  rw [Bool.or_eq_true, not_or, Bool.not_eq_true] at hfile
  obtain ⟨last, hsteps⟩ := PathName.steps_eq_steps_parent_append hfile.1
  rw [hsteps, List.getLast?_append, List.getLast?_singleton, Option.some_or] at hname
  cases hname
  rw [PathName.place, hsteps, List.foldl_append, create_eq_ok habove]
  rfl

theorem file?_put (place names : List String) :
    (s.put place text).file? names = if place = names then some text else s.file? names := by
  have hfind : ((s.put place text).files.find? fun f => f.1 = names) =
      if place = names then
        some ((s.files.find? fun f => f.1 = names).elim (place, text) fun f => (f.1, text))
      else s.files.find? fun f => f.1 = names :=
    @find?_upsert _ _ _ (fun f : List String × String => f.1) (fun f => (f.1, text)) (place, text)
      (fun _ => rfl) names s.files
  rw [file?, hfind]
  split
  · cases s.files.find? fun f => f.1 = names <;> rfl
  · rfl

theorem isDirectory_iff :
    s.isDirectory names = true ↔
      names.all (· = "..") ∨ names = ["/"] ∨
        ∃ place ∈ s.files.map (·.1), names <+: place ∧ names ≠ place := by
  have hprefix : ∀ place : List String,
      (names.isPrefixOf place && decide (names.length < place.length)) = true ↔
        names <+: place ∧ names ≠ place := by
    intro place
    rw [Bool.and_eq_true, List.isPrefixOf_iff_prefix, decide_eq_true_iff]
    refine and_congr_right fun hle => ⟨fun hlt heq => ?_, fun hne => ?_⟩
    · rw [heq] at hlt
      exact Nat.lt_irrefl _ hlt
    · exact Nat.lt_of_le_of_ne hle.length_le fun heq => hne (hle.eq_of_length heq)
  simp only [isDirectory, Bool.or_eq_true, List.any_eq_true, hprefix, or_assoc,
    decide_eq_true_iff, List.mem_map, exists_exists_and_eq_and]

theorem isDirectory_put (place names : List String) :
    (s.put place text).isDirectory names = true ↔
      s.isDirectory names = true ∨ (names <+: place ∧ names ≠ place) := by
  have hplaces := @map_key_upsert _ _ _ (fun f : List String × String => f.1)
    (fun f => (f.1, text)) (place, text) (fun _ => rfl) s.files
  have hmem : ∀ p, p ∈ (s.put place text).files.map (·.1) ↔ p ∈ s.files.map (·.1) ∨ p = place := by
    intro p
    rw [put, hplaces]
    split
    · rename_i hold
      exact (or_iff_left_of_imp fun heq => heq ▸ hold).symm
    · rw [List.mem_append, List.mem_singleton]
  rw [isDirectory_iff, isDirectory_iff]
  simp only [hmem, or_and_right, exists_or, exists_eq_left, or_assoc]

/-! ## What is changed -/

/-- One file is all that is changed: the one at the place has the text, any other
file is as before, and the directories that are new are those above the place. -/
structure ChangedOnlyAt (place : List String) (text : String) (s s' : FileState) : Prop where
  written : s'.file? place = some text
  others : ∀ names, names ≠ place → s'.file? names = s.file? names
  directories : ∀ names, s'.isDirectory names = true ↔
    s.isDirectory names = true ∨ (names <+: place ∧ names ≠ place)

theorem changedOnlyAt_of_write_eq_ok (h : s.write path text = .ok s') :
    ChangedOnlyAt (PathName.place path) text s s' := by
  obtain rfl := write_eq_ok h
  refine ⟨?_, fun names hne => ?_, fun names => isDirectory_put _ _⟩
  · rw [file?_put, if_pos rfl]
  · rw [file?_put, if_neg (Ne.symm hne)]

end FileState

end ProviderSchema
