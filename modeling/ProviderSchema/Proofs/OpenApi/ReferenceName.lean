import Mathlib.Data.List.TakeDrop
import ProviderSchema.OpenApi.Reference

/-!
# How references are written

A reference to an entry of a section is written in one way only:
`#/components/`, the section, a slash and the name of the entry
(`Reference.name_eq_ok_iff`).  So two references to one entry are the same
text, and whoever remembers the texts of references remembers the entries.
-/

namespace ProviderSchema.OpenApi.Reference

/-- The reference to an entry of a section. -/
def text (section_ name : String) : String := "#/components/" ++ section_ ++ "/" ++ name

@[simp] theorem text_inj {section_ name name' : String} :
    text section_ name = text section_ name' ↔ name = name' := by
  unfold text
  exact String.append_right_inj _

theorem toList_text (section_ name : String) :
    (text section_ name).toList = start ++ (section_.toList ++ '/' :: name.toList) := by
  have hslash : "/".toList = ['/'] := by decide
  unfold text start
  rw [String.toList_append, String.toList_append, String.toList_append, hslash]
  simp

theorem rest?_eq_some_iff {first text rest : List Char} :
    rest? first text = some rest ↔ text = first ++ rest := by
  induction first generalizing text with
  | nil => simp [rest?]
  | cons c first ih =>
    cases text with
    | nil => simp [rest?]
    | cons d text =>
      by_cases h : c = d
      · simp [rest?, h, ih]
      · simp [rest?, h, Ne.symm h]

/-- A text is parted at the first character that does not fit. -/
theorem takeWhile_dropWhile_eq_iff {p : Char → Bool} {l before after : List Char} {c : Char}
    (hbefore : ∀ b ∈ before, p b = true) (hc : p c = false) :
    (l.takeWhile p = before ∧ l.dropWhile p = c :: after) ↔ l = before ++ c :: after := by
  constructor
  · rintro ⟨rfl, hdrop⟩
    rw [← hdrop, List.takeWhile_append_dropWhile]
  · rintro rfl
    rw [List.takeWhile_append_of_pos hbefore, List.dropWhile_append_of_pos hbefore]
    simp [hc]

/-- A reference stands for an entry exactly if it is written as the reference
to that entry. -/
theorem name_eq_ok_iff {section_ target name : String} (hsection : '/' ∉ section_.toList) :
    Reference.name section_ target = .ok name ↔ target = text section_ name := by
  have hbefore : ∀ c ∈ section_.toList, (decide (c ≠ '/')) = true := by
    intro c hc
    rw [decide_eq_true_eq]
    rintro rfl
    exact hsection hc
  rw [← String.toList_inj, toList_text, ← rest?_eq_some_iff]
  unfold Reference.name
  cases hrest : rest? start target.toList with
  | none => simp
  | some rest =>
    rw [Option.some_inj, ← takeWhile_dropWhile_eq_iff hbefore (by simp)]
    dsimp only
    cases hdrop : rest.dropWhile (· ≠ '/') with
    | nil => simp
    | cons c after =>
      -- Only a slash ends the section, since the cut is made at the first one.
      have hc : c = '/' := by
        have hhead := List.head?_dropWhile_not (· ≠ '/') rest
        rw [hdrop] at hhead
        simpa using hhead
      have hfound : String.ofList (rest.takeWhile (· ≠ '/')) = section_ ↔
          rest.takeWhile (· ≠ '/') = section_.toList := by
        rw [← String.toList_inj, String.toList_ofList]
      dsimp only
      split
      · rename_i h
        rw [hfound] at h
        simp only [Except.ok.injEq, h, true_and, hc, List.cons.injEq, ← String.toList_inj,
          String.toList_ofList]
      · rename_i h
        rw [hfound] at h
        simp only [reduceCtorEq, h, false_and]

/-- References to one entry are the same text. -/
theorem eq_of_name_eq_ok {section_ target target' name : String}
    (hsection : '/' ∉ section_.toList) (h : Reference.name section_ target = .ok name)
    (h' : Reference.name section_ target' = .ok name) : target = target' := by
  rw [name_eq_ok_iff hsection] at h h'
  rw [h, h']

/-- A reference has a target exactly if it is written as the reference to an
entry that there is. -/
theorem lookup_eq_ok_iff {α : Type} {section_ target name : String} {table : List (String × α)}
    {value : α} (hsection : '/' ∉ section_.toList) :
    lookup section_ table target = .ok (name, value) ↔
      target = text section_ name ∧ Table.get? table name = some value := by
  rw [← name_eq_ok_iff hsection]
  unfold lookup
  cases Reference.name section_ target with
  | error e => simp
  | ok found =>
    dsimp only
    split
    · rename_i value' hget
      simp only [Except.ok.injEq, Prod.mk.injEq]
      constructor
      · rintro ⟨rfl, rfl⟩
        exact ⟨rfl, hget⟩
      · rintro ⟨rfl, hvalue⟩
        rw [hget, Option.some_inj] at hvalue
        exact ⟨rfl, hvalue⟩
    · rename_i hget
      simp only [reduceCtorEq, Except.ok.injEq, false_iff, not_and]
      rintro rfl
      simp [hget]

/-- References are looked up alike if the entries they may stand for are the
same. -/
theorem lookup_congr {α : Type} {section_ target : String} {table table' : List (String × α)}
    (hsection : '/' ∉ section_.toList)
    (h : ∀ name, target = text section_ name → Table.get? table' name = Table.get? table name) :
    lookup section_ table' target = lookup section_ table target := by
  unfold lookup
  cases hname : Reference.name section_ target with
  | error e => rfl
  | ok name =>
    dsimp only
    rw [h name ((name_eq_ok_iff hsection).mp hname)]

end ProviderSchema.OpenApi.Reference
