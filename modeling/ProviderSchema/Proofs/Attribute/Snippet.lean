import ProviderSchema.Attribute.Validator
import ProviderSchema.Proofs.Decimal.Numeral

/-!
# Reading calls

The definition of a validator is the text of a call, and `Snippet.read?` reads such a
text: the package up to the first point, the function up to the first parenthesis, and
then the arguments, which are separated by the commas outside of quoted texts.

A text is `Snippet.Sealed` if it is one argument wherever it stands.  Quoted texts are,
whatever they quote (`sealed_encode`), and so are texts without quotes, commas and blanks
(`Plain.sealed`).  A definition with such arguments is read as the call that it was
written for (`read?_definition`).
-/

namespace ProviderSchema

open Text (joinWith)

/-- A call: a function of a package, and the texts of the arguments. -/
structure Snippet where
  package : String
  function : String
  arguments : List String
deriving DecidableEq, Repr

namespace Snippet

/-! ## The reader -/

/-- The characters before and after the first mark. -/
def cut? (mark : Char) : List Char → Option (List Char × List Char)
  | [] => none
  | c :: rest =>
    if c = mark then some ([], rest)
    else (cut? mark rest).map fun (before, after) => (c :: before, after)

/-- Where a character of an argument stands: outside of quoted texts, in one, or in one
after a backslash. -/
inductive Place where
  | outside
  | quoted
  | escaped
deriving DecidableEq, Repr

/-- The place after a character. -/
def Place.after (c : Char) : Place → Place
  | .outside => if c = '"' then .quoted else .outside
  | .quoted => if c = '"' then .outside else if c = '\\' then .escaped else .quoted
  | .escaped => .quoted

/-- The parts of a text between the commas outside of quoted texts; `taken` are the
characters of the first part so far, the last one first. -/
def partsFrom (place : Place) (taken : List Char) : List Char → List (List Char)
  | [] => [taken.reverse]
  | c :: rest =>
    if place = .outside ∧ c = ',' then taken.reverse :: partsFrom .outside [] rest
    else partsFrom (place.after c) (c :: taken) rest

/-- The arguments between the parentheses of a call. -/
def argumentsOf (text : List Char) : List String :=
  if text = [] then []
  else (partsFrom .outside [] text).map fun part => String.ofList (part.dropWhile (· = ' '))

/-- The call that a text is. -/
def read? (text : String) : Option Snippet :=
  match cut? '.' text.toList with
  | none => none
  | some (package, rest) =>
    match cut? '(' rest with
    | none => none
    | some (function, rest) =>
      if rest.getLast? = some ')' then
        some ⟨String.ofList package, String.ofList function, argumentsOf rest.dropLast⟩
      else none

theorem cut?_append {mark : Char} {before : List Char} (h : mark ∉ before) (after : List Char) :
    cut? mark (before ++ mark :: after) = some (before, after) := by
  induction before with
  | nil => rw [List.nil_append, cut?, if_pos rfl]
  | cons c rest ih =>
    rw [List.mem_cons, not_or] at h
    rw [List.cons_append, cut?, if_neg (Ne.symm h.1), ih h.2]
    rfl

/-! ## Sealed texts -/

/-- A text is one argument wherever it stands. -/
structure Sealed (text : List Char) : Prop where
  ne_nil : text ≠ []
  head : text.head? ≠ some ' '
  /-- Outside of quoted texts it is taken as a whole. -/
  taken : ∀ before after, partsFrom .outside before (text ++ after) =
    partsFrom .outside (text.reverse ++ before) after

/-- A text without quotes, commas and blanks. -/
structure Plain (text : List Char) : Prop where
  ne_nil : text ≠ []
  mem : ∀ c ∈ text, c ≠ '"' ∧ c ≠ ',' ∧ c ≠ ' '

theorem Plain.sealed {text : List Char} (h : Plain text) : Sealed text := by
  have htaken : ∀ {text : List Char}, (∀ c ∈ text, c ≠ '"' ∧ c ≠ ',' ∧ c ≠ ' ') →
      ∀ before after, partsFrom .outside before (text ++ after) =
        partsFrom .outside (text.reverse ++ before) after := by
    intro text hmem
    induction text with
    | nil => exact fun _ _ => rfl
    | cons c rest ih =>
      intro before after
      rw [List.forall_mem_cons] at hmem
      have hplace : Place.after c .outside = .outside := by
        rw [Place.after, if_neg hmem.1.1]
      rw [List.cons_append, partsFrom, if_neg (fun h => hmem.1.2.1 h.2), hplace, ih hmem.2,
        List.reverse_cons, List.append_assoc]
      rfl
  refine ⟨h.ne_nil, ?_, htaken h.mem⟩
  obtain ⟨c, rest, rfl⟩ := List.exists_cons_of_ne_nil h.ne_nil
  rw [List.head?_cons, ne_eq, Option.some_inj]
  exact (h.mem c List.mem_cons_self).2.2

theorem plain_of_isDigit {c : Char} (h : c.isDigit = true) : c ≠ '"' ∧ c ≠ ',' ∧ c ≠ ' ' := by
  refine ⟨?_, ?_, ?_⟩ <;> (rintro rfl; exact absurd h (by decide))

theorem sealed_toDigits (n : Nat) : Sealed (Nat.toDigits 10 n) :=
  Plain.sealed ⟨Nat.toDigits_ne_nil, fun _ h =>
    plain_of_isDigit (Decimal.isDigit_of_mem_toDigits h)⟩

theorem sealed_natural (n : Nat) : Sealed (toString n).toList := by
  rw [Decimal.toList_toString_natural]
  exact sealed_toDigits n

theorem sealed_integer (n : Int) : Sealed (toString n).toList := by
  rw [Decimal.toList_toString_integer]
  split
  · refine Plain.sealed ⟨by simp, List.forall_mem_cons.mpr ⟨by decide, fun c h => ?_⟩⟩
    exact plain_of_isDigit (Decimal.isDigit_of_mem_toDigits h)
  · exact sealed_toDigits n.natAbs

open Json.Quoted (escape encode)

theorem partsFrom_quoted {c : Char} (hquote : c ≠ '"') (hbackslash : c ≠ '\\')
    (before after : List Char) :
    partsFrom .quoted before (c :: after) = partsFrom .quoted (c :: before) after := by
  rw [partsFrom, if_neg (by simp), Place.after, if_neg hquote, if_neg hbackslash]

theorem hexDigit_ne : ∀ n < 16, Json.Quoted.hexDigit n ≠ '"' ∧ Json.Quoted.hexDigit n ≠ '\\' := by
  decide

/-- In a quoted text a character is taken as a whole, whether it is escaped or not. -/
theorem partsFrom_escape (c : Char) (before after : List Char) :
    partsFrom .quoted before (escape c ++ after) =
      partsFrom .quoted ((escape c).reverse ++ before) after := by
  unfold escape
  split
  · rfl
  · rename_i hquote
    split
    · rfl
    · rename_i hbackslash
      -- Five characters are escaped by a letter, and control characters by their number.
      iterate 5
        split
        · rfl
      split
      · rename_i hcontrol
        obtain ⟨hquote', hbackslash'⟩ := hexDigit_ne (c.toNat / 16) (by omega)
        obtain ⟨hquote'', hbackslash''⟩ := hexDigit_ne (c.toNat % 16) (by omega)
        change partsFrom .quoted ('0' :: '0' :: 'u' :: '\\' :: before) (_ :: _ :: after) = _
        rw [partsFrom_quoted hquote' hbackslash', partsFrom_quoted hquote'' hbackslash'']
        rfl
      · exact partsFrom_quoted hquote hbackslash before after

theorem partsFrom_flatMap_escape (text before after : List Char) :
    partsFrom .quoted before (text.flatMap escape ++ after) =
      partsFrom .quoted ((text.flatMap escape).reverse ++ before) after := by
  induction text generalizing before with
  | nil => rfl
  | cons c rest ih =>
    rw [List.flatMap_cons, List.append_assoc, partsFrom_escape, ih, List.reverse_append,
      List.append_assoc]

/-- A quoted text is sealed, whatever it quotes. -/
theorem sealed_encode (text : List Char) : Sealed (encode text) := by
  refine ⟨by simp [encode], by simp [encode], fun before after => ?_⟩
  rw [encode, List.cons_append, partsFrom, if_neg (by decide), List.append_assoc,
    Place.after, if_pos rfl, partsFrom_flatMap_escape, List.reverse_cons, List.reverse_append]
  rw [List.singleton_append, partsFrom, if_neg (by decide)]
  simp [Place.after]

/-- Separated by commas, sealed texts are taken apart again. -/
theorem partsFrom_joinWith {first : String} {rest : List String} (hfirst : Sealed first.toList)
    (hrest : ∀ t ∈ rest, Sealed t.toList) (before : List Char) :
    partsFrom .outside before (joinWith ", " (first :: rest)).toList =
      (before.reverse ++ first.toList) :: rest.map fun t => ' ' :: t.toList := by
  induction rest generalizing first before with
  | nil =>
    have hend := hfirst.taken before []
    rw [List.append_nil] at hend
    rw [joinWith, hend, partsFrom, List.reverse_append, List.reverse_reverse]
    rfl
  | cons second rest ih =>
    rw [List.forall_mem_cons] at hrest
    have hcomma : (joinWith ", " (first :: second :: rest)).toList =
        first.toList ++ ',' :: ' ' :: (joinWith ", " (second :: rest)).toList := by
      rw [joinWith, String.toList_append, String.toList_append, List.append_assoc]
      · rfl
      · simp
    -- The blank after the comma stays with the second text.
    have hblank : partsFrom .outside [] (' ' :: (joinWith ", " (second :: rest)).toList) =
        (' ' :: second.toList) :: rest.map fun t => ' ' :: t.toList :=
      ih hrest.1 hrest.2 [' ']
    rw [hcomma, hfirst.taken, partsFrom, if_pos ⟨rfl, rfl⟩, hblank, List.reverse_append,
      List.reverse_reverse, List.map_cons]

theorem Sealed.dropWhile_eq {text : String} (h : Sealed text.toList) :
    String.ofList (text.toList.dropWhile (· = ' ')) = text := by
  obtain ⟨c, rest, hcons⟩ := List.exists_cons_of_ne_nil h.ne_nil
  have hc : c ≠ ' ' := by
    have hhead := h.head
    rw [hcons] at hhead
    simpa using hhead
  rw [hcons, List.dropWhile_cons_of_neg (by simpa using hc), ← hcons, String.ofList_toList]

theorem argumentsOf_joinWith {texts : List String} (h : ∀ t ∈ texts, Sealed t.toList) :
    argumentsOf (joinWith ", " texts).toList = texts := by
  cases texts with
  | nil => rfl
  | cons first rest =>
    rw [List.forall_mem_cons] at h
    have hne : (joinWith ", " (first :: rest)).toList ≠ [] := by
      intro hnil
      have hparts := partsFrom_joinWith h.1 h.2 []
      rw [hnil, partsFrom] at hparts
      exact h.1.ne_nil (List.cons_eq_cons.mp hparts).1.symm
    have hrest : ∀ t ∈ rest,
        String.ofList ((' ' :: t.toList).dropWhile (· = ' ')) = t := fun t ht => by
      rw [List.dropWhile_cons_of_pos (by simp), (h.2 t ht).dropWhile_eq]
    rw [argumentsOf, if_neg hne, partsFrom_joinWith h.1 h.2, List.map_cons, List.map_map,
      List.reverse_nil, List.nil_append, h.1.dropWhile_eq]
    exact congrArg (first :: ·) ((List.map_congr_left hrest).trans (List.map_id' rest))

/-! ## Definitions -/

/-- The definition of a validator is read as the call that it was written for. -/
theorem read?_definition {v : Validator}
    (h : ∀ t ∈ (Validator.call v.target v.rule).2, Sealed t.toList) :
    read? v.definition =
      some ⟨v.target.package, (Validator.call v.target v.rule).1,
        (Validator.call v.target v.rule).2⟩ := by
  have hpackage : '.' ∉ v.target.package.toList := by cases v.target <;> decide
  have hfunction : '(' ∉ (Validator.call v.target v.rule).1.toList := by
    cases v.rule <;> simp only [Validator.call] <;> decide
  have htext : v.definition.toList =
      v.target.package.toList ++ '.' :: ((Validator.call v.target v.rule).1.toList ++ '(' ::
        ((joinWith ", " (Validator.call v.target v.rule).2).toList ++ [')'])) := by
    rw [Validator.definition]
    simp
  rw [read?, htext, cut?_append hpackage]
  dsimp only
  rw [cut?_append hfunction]
  dsimp only
  rw [if_pos (by simp), List.dropLast_concat, argumentsOf_joinWith h, String.ofList_toList,
    String.ofList_toList]

end Snippet

end ProviderSchema
