import ProviderSchema.Json.ShapedReading
import ProviderSchema.Proofs.Decimal.Format
import ProviderSchema.Proofs.Decimal.Range
import ProviderSchema.Proofs.Document.Except
import ProviderSchema.Proofs.Document.Part

/-!
# The numbers of a JSON text

The integers of a JSON text have 64 bits, with a sign or without, and its other numbers
are finite: digits that lead beyond the range make the text unreadable
(`inRange_of_value?`).  `Source.InRange` says so of all numbers of a tree of values.
The reader makes no other trees (`inRange_reader`, by induction on the steps that are
left), and what is read from such a tree along any shape has no other numbers
(`Source.inRange_read`).
-/

namespace ProviderSchema.Json

open Decimal

/-! ## Numbers -/

/-- The numbers that a JSON text has. -/
def jsonNumbers : NumberTest where
  integer n := minInt64 ≤ n ∧ n ≤ maxSignificand
  float x := x.isFinite = true ∧ x.InFormat

/-- A number is one that a JSON text has. -/
def Number.InRange (n : Number) : Prop := n.content.HasNumber jsonNumbers

theorem takeDigits_le {significand : Nat} (h : significand ≤ maxSignificand)
    (digits : List Char) : (takeDigits significand digits).1 ≤ maxSignificand := by
  induction digits generalizing significand with
  | nil => exact h
  | cons d rest ih =>
    rw [takeDigits]
    split
    · exact h
    · rename_i hfits
      exact ih (Nat.le_of_not_lt hfits)

theorem isFinite_scale?_ofRatio {significand : Nat} (h : significand ≤ maxSignificand)
    {exponent : Int} {steps : Nat} {x : Binary64}
    (hx : scale? (.ofRatio false significand 1) exponent steps = some x) :
    x.isFinite = true := by
  have hlt : significand < 2 ^ 64 := Nat.lt_of_le_of_lt h (by decide)
  have hlog : significand.log2 ≤ 63 := Binary64.log2_le_of_lt hlt
  refine isFinite_scale? ?_ hx
  exact Binary64.ofRatio_atMost (by decide) (by decide) (fun _ => by omega) false

/-- Scaling rounds to numbers of the format. -/
theorem inFormat_scale? {x y : Binary64} (hx : x.InFormat) {exponent : Int} {steps : Nat}
    (h : scale? x exponent steps = some y) : y.InFormat := by
  induction steps generalizing x exponent with
  | zero =>
    cases h
    exact hx
  | succ steps ih =>
    rw [scale?] at h
    split at h
    · split at h
      · dsimp only at h
        split at h
        · cases h
          exact Binary64.inFormat_mul _ _
        · cases h
      · cases h
        exact Binary64.inFormat_div _ _
    · split at h
      · cases h
        exact hx
      · split at h
        · cases h
        · exact ih (Binary64.inFormat_div _ _) h

/-- A number that can be read is in range. -/
theorem inRange_of_value? {t : NumberText} {n : Number} (h : t.value? = some n) : n.InRange := by
  have hwhole : (takeDigits 0 t.whole).1 ≤ maxSignificand :=
    takeDigits_le (Nat.zero_le _) t.whole
  have hfloat : ∀ {significand : Nat} {exponent : Int}, significand ≤ maxSignificand →
      ((scale? (.ofRatio false significand 1) exponent 4).map fun x =>
        Number.float (if t.negative then x.neg else x)) = some n → n.InRange := by
    intro significand exponent hle hn
    rw [Option.map_eq_some_iff] at hn
    obtain ⟨x, hx, rfl⟩ := hn
    have hfinite := isFinite_scale?_ofRatio hle hx
    have hformat := inFormat_scale? (Binary64.inFormat_ofRatio _ _ _) hx
    show jsonNumbers.float (if t.negative then x.neg else x)
    split
    · exact ⟨Binary64.isFinite_neg hfinite, hformat.neg⟩
    · exact ⟨hfinite, hformat⟩
  rw [NumberText.value?] at h
  dsimp only at h
  split at h
  · split at h
    · split at h
      · cases h
        exact ⟨Int.le_trans (by decide) (Int.natCast_nonneg _), Int.ofNat_le.mpr hwhole⟩
      · split at h
        · exact hfloat hwhole h
        · rename_i hsmall
          cases h
          have hmin : minInt64 = -(Nat.pow 2 63 : Nat) := by decide
          have hle := Nat.le_of_not_lt (not_or.mp hsmall).2
          refine ⟨?_, ?_⟩
          · rw [hmin]
            omega
          · omega
    · exact hfloat hwhole h
  · exact hfloat (takeDigits_le hwhole _) h

/-- The readers of a number find what a written number stands for. -/
def OfText (s : Scanned Number) : Prop := ∀ n, s.value = .ok n → ∃ t : NumberText, t.value? = some n

theorem ofText_fail (read skip : Fault) : OfText (.fail read skip) := fun _ h => by cases h

theorem ofText_scanned (t : NumberText) (rest : List Char) (line : Nat) :
    OfText (t.scanned rest line) := by
  intro n h
  rw [NumberText.scanned] at h
  dsimp only at h
  split at h
  · cases h
    exact ⟨t, by assumption⟩
  · cases h

theorem ofText_scanExponent (t : NumberText) (line : Nat) (text : List Char) :
    OfText (scanExponent t line text) := by
  unfold scanExponent
  split
  dsimp only
  split
  · exact ofText_fail _ _
  · split
    · exact ofText_scanned _ _ _
    · exact ofText_fail _ _

theorem ofText_scanAfterDigits (t : NumberText) (line : Nat) (text : List Char) :
    OfText (scanAfterDigits t line text) := by
  unfold scanAfterDigits
  split
  · exact ofText_scanExponent _ _ _
  · exact ofText_scanExponent _ _ _
  · exact ofText_scanned _ _ _

theorem ofText_scanMagnitude (negative : Bool) (line : Nat) (text : List Char) :
    OfText (scanMagnitude negative line text) := by
  unfold scanMagnitude
  split
  · exact ofText_fail _ _
  · dsimp only
    split
    · exact ofText_fail _ _
    · split
      · exact ofText_scanned _ _ _
      · split
        · exact ofText_fail _ _
        · split
          · split
            · exact ofText_fail _ _
            · split
              · exact ofText_scanAfterDigits _ _ _
              · exact ofText_fail _ _
          · exact ofText_scanAfterDigits _ _ _

theorem ofText_scanNumber (place : Cursor) : OfText (scanNumber place) := by
  unfold scanNumber
  split <;> exact ofText_scanMagnitude _ _ _

/-! ## Trees of values -/

mutual

/-- All numbers that can be read in a tree are in range. -/
def Source.InRange : Source → Prop
  | .number n => n.InRange
  | .array items => items.InRange
  | .object members => members.InRange
  | _ => True

/-- The numbers of all items are in range. -/
def Items.InRange : Items → Prop
  | .item _ value rest => value.InRange ∧ rest.InRange
  | _ => True

/-- The numbers of all members are in range. -/
def Members.InRange : Members → Prop
  | .member _ value rest => value.InRange ∧ rest.InRange
  | _ => True

end

theorem inRange_source {α : Type} (s : Scanned α) {value : α → Source}
    (h : ∀ a, s.value = .ok a → (value a).InRange) : (s.source value).1.InRange := by
  unfold Scanned.source
  split
  · exact h _ (by assumption)
  all_goals trivial

theorem inRange_wordSource (word : Except Fault Cursor) {value : Source} (h : value.InRange) :
    (wordSource word value).1.InRange := by
  unfold wordSource
  split
  · exact h
  · trivial

theorem inRange_nested (level line : Nat) {value : Source} (h : value.InRange) :
    (nested level line value).InRange := by
  unfold nested
  split
  · trivial
  · exact h

/-- What the reader makes of a text has numbers in range only.  The induction is on the
steps that are left, for the four functions of the reader together. -/
theorem inRange_reader (fuel : Nat) :
    (∀ level place, (readValue level place fuel).1.InRange) ∧
    (∀ level first place, (readItems level first place fuel).1.InRange) ∧
    (∀ level first place, (readMembers level first place fuel).1.InRange) ∧
    (∀ level place, (readMemberValue level place fuel).1.InRange) := by
  induction fuel with
  | zero => exact ⟨fun _ _ => trivial, fun _ _ _ => trivial, fun _ _ _ => trivial,
      fun _ _ => trivial⟩
  | succ fuel ih =>
    obtain ⟨ihValue, ihItems, ihMembers, ihMemberValue⟩ := ih
    refine ⟨fun level place => ?_, fun level first place => ?_, fun level first place => ?_,
      fun level place => ?_⟩
    · rw [readValue]
      dsimp only
      split
      · trivial
      · exact inRange_wordSource _ trivial
      · exact inRange_wordSource _ trivial
      · exact inRange_wordSource _ trivial
      · exact inRange_source _ fun _ _ => trivial
      · exact inRange_nested _ _ (ihItems _ _ _)
      · exact inRange_nested _ _ (ihMembers _ _ _)
      · split
        · refine inRange_source _ fun n hn => ?_
          obtain ⟨t, ht⟩ := ofText_scanNumber _ n hn
          exact inRange_of_value? ht
        · trivial
    · rw [readItems]
      dsimp only
      split
      · trivial
      · trivial
      · split
        · trivial
        · split
          · exact ⟨trivial, trivial⟩
          · exact ⟨trivial, trivial⟩
          · generalize (if first = true then place.trimmed else _) = start
            have hvalue := ihValue level start
            split
            · rename_i hread
              rw [hread] at hvalue
              exact ⟨hvalue, trivial⟩
            · rename_i hread
              rw [hread] at hvalue
              exact ⟨hvalue, ihItems _ _ _⟩
    · rw [readMembers]
      dsimp only
      split
      · trivial
      · trivial
      · split
        · trivial
        · split
          · trivial
          · split
            · exact ⟨trivial, trivial⟩
            · split
              · exact ⟨ihMemberValue _ _, trivial⟩
              · exact ⟨ihMemberValue _ _, ihMembers _ _ _⟩
          · trivial
    · rw [readMemberValue]
      split
      · trivial
      · exact ihValue _ _
      · trivial

theorem inRange_ofText (text : String) : (SourceText.ofText text).value.InRange := by
  have hvalue := (inRange_reader (3 * text.toList.length + 3)).1 0 ⟨text.toList, 1⟩
  unfold SourceText.ofText
  dsimp only
  split
  · rename_i hread
    rw [hread] at hvalue
    exact hvalue
  · rename_i hread
    rw [hread] at hvalue
    exact hvalue

/-! ## Reading along a shape -/

theorem inRange_number {n : Number} (h : n.InRange) : n.content.AllNumbers jsonNumbers := by
  cases n <;>
    exact Content.allNumbers_scalar (by simp [Number.content]) (by simp [Number.content]) h

mutual

/-- A value as it stands has the numbers of the tree. -/
theorem Source.inRange_content {s : Source} (hs : s.InRange) {c : Content}
    (h : s.content = .ok c) : c.AllNumbers jsonNumbers := by
  cases s with
  | array items =>
    rw [Source.content, map_eq_ok_iff] at h
    obtain ⟨cs, hcs, rfl⟩ := h
    exact Content.allNumbers_array (Items.inRange_contents hs hcs)
  | object members =>
    rw [Source.content, map_eq_ok_iff] at h
    obtain ⟨es, hes, rfl⟩ := h
    exact Content.allNumbers_object (Members.inRange_entries hs hes)
  | number n =>
    cases h
    exact inRange_number hs
  | broken f => cases h
  | unreadable f inner => cases h
  | _ =>
    cases h
    exact Content.allNumbers_scalar (by simp) (by simp) trivial

theorem Items.inRange_contents {items : Items} (hitems : items.InRange) {cs : List Content}
    (h : items.contents = .ok cs) : ∀ c ∈ cs, c.AllNumbers jsonNumbers := by
  cases items with
  | done =>
    cases h
    simp
  | stop f => cases h
  | item line value rest =>
    rw [Items.contents] at h
    split at h
    · cases h
    · rename_i c hc
      rw [map_eq_ok_iff] at h
      obtain ⟨cs, hcs, rfl⟩ := h
      exact List.forall_mem_cons.mpr
        ⟨Source.inRange_content hitems.1 hc, Items.inRange_contents hitems.2 hcs⟩

theorem Members.inRange_entries {members : Members} (hmembers : members.InRange)
    {es : List (Key × Content)} (h : members.entries = .ok es) :
    ∀ e ∈ es, e.2.AllNumbers jsonNumbers := by
  cases members with
  | done =>
    cases h
    simp
  | stop f => cases h
  | member name value rest =>
    cases name with
    | error f => cases h
    | ok name =>
      rw [Members.entries] at h
      split at h
      · cases h
      · rename_i c hc
        rw [map_eq_ok_iff] at h
        obtain ⟨es, hes, rfl⟩ := h
        exact List.forall_mem_cons.mpr
          ⟨Source.inRange_content hmembers.1 hc, Members.inRange_entries hmembers.2 hes⟩

end

theorem Source.inRange_scalar {s : Source} (hs : s.InRange) {shape : Shape} {c : Content}
    (h : s.scalar shape = .ok c) : c.AllNumbers jsonNumbers := by
  unfold Source.scalar at h
  split at h
  · cases h
    exact Content.allNumbers_scalar (by simp) (by simp) trivial
  · cases h
    exact Content.allNumbers_scalar (by simp) (by simp) trivial
  · split at h
    · cases h
      exact inRange_number hs
    · cases h
  · cases h
    exact inRange_number hs
  · cases h

mutual

/-- What is read along a shape has the numbers of the tree. -/
theorem Source.inRange_read {s : Source} (hs : s.InRange) {shape : Shape} {c : Content}
    (h : s.read shape = .ok c) : c.AllNumbers jsonNumbers := by
  cases s with
  | broken f => cases h
  | unreadable f inner => cases h
  | array items =>
    rw [Source.read] at h
    split at h
    · rw [map_eq_ok_iff] at h
      obtain ⟨cs, hcs, rfl⟩ := h
      exact Content.allNumbers_array (Items.inRange_contents hs hcs)
    · rw [map_eq_ok_iff] at h
      obtain ⟨cs, hcs, rfl⟩ := h
      exact Content.allNumbers_array (Items.inRange_readAll hs hcs)
    · rw [map_eq_ok_iff] at h
      obtain ⟨cs, hcs, rfl⟩ := h
      exact Content.allNumbers_array (Items.inRange_readFields hs hcs)
    · split at h
      · cases h
      · rename_i cs hcs
        split at h
        · cases h
          exact Content.allNumbers_array (Items.inRange_contents hs hcs)
        · cases h
    · cases h
  | object members =>
    rw [Source.read] at h
    split at h
    · rw [map_eq_ok_iff] at h
      obtain ⟨es, hes, rfl⟩ := h
      exact Content.allNumbers_object (Members.inRange_entries hs hes)
    · rw [map_eq_ok_iff] at h
      obtain ⟨es, hes, rfl⟩ := h
      exact Content.allNumbers_object (Members.inRange_readTable hs hes)
    · rw [map_eq_ok_iff] at h
      obtain ⟨es, hes, rfl⟩ := h
      exact Content.allNumbers_object (Members.inRange_readFields hs hes)
    · split at h
      · cases h
      · rename_i es hes
        split at h
        · cases h
          exact Content.allNumbers_object (Members.inRange_entries hs hes)
        · cases h
    · cases h
  | _ =>
    rw [Source.read] at h
    · split at h
      · cases h
        exact Content.allNumbers_scalar (by simp) (by simp) trivial
      · split at h
        · exact Source.inRange_content hs h
        · split at h
          · cases h
          · rename_i c' hc'
            split at h
            · cases h
              exact Source.inRange_content hs hc'
            · cases h
        · exact Source.inRange_scalar hs h
    all_goals simp

/-- So have the items of a list of one shape. -/
theorem Items.inRange_readAll {items : Items} (hitems : items.InRange) {shape : Shape}
    {cs : List Content} (h : items.readAll shape = .ok cs) :
    ∀ c ∈ cs, c.AllNumbers jsonNumbers := by
  cases items with
  | done =>
    cases h
    simp
  | stop f => cases h
  | item line value rest =>
    rw [Items.readAll] at h
    split at h
    · cases h
    · rename_i c hc
      rw [map_eq_ok_iff] at h
      obtain ⟨cs, hcs, rfl⟩ := h
      exact List.forall_mem_cons.mpr
        ⟨Source.inRange_read hitems.1 hc, Items.inRange_readAll hitems.2 hcs⟩

theorem Items.inRange_readFields {items : Items} (hitems : items.InRange) {record : String}
    {size index : Nat} {fields : List (String × Presence × Shape)} {cs : List Content}
    (h : items.readFields record size index fields = .ok cs) :
    ∀ c ∈ cs, c.AllNumbers jsonNumbers := by
  cases items with
  | done =>
    rw [Items.readFields] at h
    split at h
    · cases h
      simp
    · cases h
  | stop f => cases h
  | item line value rest =>
    cases fields with
    | nil => cases h
    | cons field fields =>
      rw [Items.readFields] at h
      split at h
      · cases h
      · rename_i c hc
        rw [map_eq_ok_iff] at h
        obtain ⟨cs, hcs, rfl⟩ := h
        exact List.forall_mem_cons.mpr
          ⟨Source.inRange_read hitems.1 hc, Items.inRange_readFields hitems.2 hcs⟩

/-- The entries of a table. -/
theorem Members.inRange_readTable {members : Members} (hmembers : members.InRange) {shape : Shape}
    {es : List (Key × Content)} (h : members.readTable shape = .ok es) :
    ∀ e ∈ es, e.2.AllNumbers jsonNumbers := by
  cases members with
  | done =>
    cases h
    simp
  | stop f => cases h
  | member name value rest =>
    cases name with
    | error f => cases h
    | ok name =>
      rw [Members.readTable] at h
      split at h
      · cases h
      · rename_i c hc
        rw [map_eq_ok_iff] at h
        obtain ⟨es, hes, rfl⟩ := h
        exact List.forall_mem_cons.mpr
          ⟨Source.inRange_read hmembers.1 hc, Members.inRange_readTable hmembers.2 hes⟩

theorem Members.inRange_readFields {members : Members} (hmembers : members.InRange)
    {fields : List (String × Presence × Shape)} {seen : List String}
    {es : List (Key × Content)} (h : members.readFields fields seen = .ok es) :
    ∀ e ∈ es, e.2.AllNumbers jsonNumbers := by
  cases members with
  | done =>
    rw [Members.readFields] at h
    split at h
    · cases h
      simp
    · cases h
  | stop f => cases h
  | member name value rest =>
    cases name with
    | error f => cases h
    | ok name =>
      rw [Members.readFields] at h
      split at h
      · split at h
        · cases h
        · exact Members.inRange_readFields hmembers.2 h
      · split at h
        · cases h
        · split at h
          · cases h
          · rename_i c hc
            rw [map_eq_ok_iff] at h
            obtain ⟨es, hes, rfl⟩ := h
            exact List.forall_mem_cons.mpr
              ⟨Source.inRange_read hmembers.1 hc, Members.inRange_readFields hmembers.2 hes⟩

end

/-- The content of a JSON text has no other numbers. -/
theorem allNumbers_contentOf {shape : Shape} {text : String} {c : Content}
    (h : contentOf shape text = .ok c) : c.AllNumbers jsonNumbers := by
  rw [contentOf] at h
  split at h
  · cases h
  · rename_i c' hc'
    split at h
    · cases h
    · cases h
      exact Source.inRange_read (inRange_ofText text) hc'

/-- So it is finite. -/
theorem finite_contentOf {shape : Shape} {text : String} {c : Content}
    (h : contentOf shape text = .ok c) : c.Finite := by
  refine (allNumbers_contentOf h).mono (fun n hn => Binary64.isFinite_ofInt ?_) fun x hx => hx.1
  have hmin : minInt64 = -9223372036854775808 := by decide
  have hmax : maxSignificand = 18446744073709551615 := by decide
  obtain ⟨hlow, hhigh⟩ := hn
  rw [hmin] at hlow
  rw [hmax] at hhigh
  omega

end ProviderSchema.Json
