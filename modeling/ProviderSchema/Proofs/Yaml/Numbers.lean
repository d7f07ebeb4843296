import ProviderSchema.Proofs.Decimal.Format
import ProviderSchema.Proofs.Document.Part
import ProviderSchema.Yaml.ShapedReading

/-!
# The numbers of a YAML text

The integers of a YAML text have 64 bits, with a sign or without: a scalar that looks
like a larger one is a fault, a floating-point number or text (`Scalar.integerContent?`).
A floating-point number may be infinite or no number at all.

`Yields` is what is known of the results of a reading whatever aliases have been
followed.  A node that is read as it stands or along a shape yields content with such
numbers only (`Document.yields_content`, `Document.yields_read`, by induction on the
depth).
-/

namespace ProviderSchema.Yaml

open Decimal (Binary64 minInt64)

/-- The numbers that a YAML text has. -/
def yamlNumbers : NumberTest where
  integer n := minInt64 ≤ n ∧ n < Int.pow 2 64
  float x := x.InFormat

/-! ## Scalars -/

theorem inFormat_ofUnsigned? {negative : Bool} {text : List Char} {x : Binary64}
    (h : Binary64.ofUnsigned? negative text = some x) : x.InFormat := by
  unfold Binary64.ofUnsigned? at h
  extract_lets whole rest at h
  split at h
  split at h
  · cases h
  · obtain ⟨e, -, rfl⟩ := Option.map_eq_some_iff.mp h
    exact Binary64.inFormat_ofDecimal _ _ _

theorem inFormat_ofLiteral? {text : List Char} {x : Binary64}
    (h : Binary64.ofLiteral? text = some x) : x.InFormat := by
  unfold Binary64.ofLiteral? at h
  split at h <;> exact inFormat_ofUnsigned? h

namespace Scalar

theorem inFormat_float? {text : List Char} {x : Binary64} (h : float? text = some x) :
    x.InFormat := by
  obtain ⟨rest, -, h⟩ := Option.bind_eq_some_iff.mp h
  split at h
  · cases h
    trivial
  · split at h
    · cases h
      trivial
    · split at h
      · cases h
        trivial
      · split at h
        · rename_i y hy
          split at h
          · cases h
            exact inFormat_ofLiteral? hy
          · cases h
        · cases h

theorem allNumbers_integer {n : Int} (h : yamlNumbers.integer n) :
    (Content.integer n).AllNumbers yamlNumbers :=
  Content.allNumbers_scalar (by simp) (by simp) h

theorem allNumbers_float {x : Binary64} (h : x.InFormat) :
    (Content.float x).AllNumbers yamlNumbers :=
  Content.allNumbers_scalar (by simp) (by simp) h

theorem allNumbers_integerContent? {text : List Char} {c : Content}
    (h : integerContent? text = some (some c)) : c.AllNumbers yamlNumbers := by
  unfold integerContent? at h
  split at h
  · cases h
  · split at h
    · rename_i hrange
      cases h
      exact allNumbers_integer hrange
    · split at h <;> cases h

theorem allNumbers_plain? {text : String} {c : Content} (h : plain? text = some c) :
    c.AllNumbers yamlNumbers := by
  unfold plain? at h
  split at h
  · cases h
    exact Content.allNumbers_scalar (by simp) (by simp) trivial
  · split at h
    · cases h
      exact Content.allNumbers_scalar (by simp) (by simp) trivial
    · dsimp only at h
      split at h
      · rename_i content hcontent
        exact allNumbers_integerContent? (hcontent.trans (congrArg some h))
      · split at h
        · rename_i x hx
          cases h
          split at hx
          · cases hx
          · exact allNumbers_float (inFormat_float? hx)
        · cases h
          exact Content.allNumbers_scalar (by simp) (by simp) trivial

theorem allNumbers_flag? {tag : Option String} {text : String} {style : Style} {c : Content}
    (h : flag? tag text style = some c) : c.AllNumbers yamlNumbers := by
  unfold flag? at h
  split at h
  · obtain ⟨b, -, rfl⟩ := Option.map_eq_some_iff.mp h
    exact Content.allNumbers_scalar (by simp) (by simp) trivial
  · cases h

theorem allNumbers_number? {tag : Option String} {text : String} {style : Style} {c : Content}
    (h : number? tag text style = some c) : c.AllNumbers yamlNumbers := by
  unfold number? at h
  split at h
  · obtain ⟨x, hx, rfl⟩ := Option.map_eq_some_iff.mp h
    exact allNumbers_float (inFormat_float? hx)
  · cases h

theorem allNumbers_natural? {tag : Option String} {text : String} {style : Style} {c : Content}
    (h : natural? tag text style = some c) : c.AllNumbers yamlNumbers := by
  unfold natural? at h
  split at h
  · split at h
    · split at h
      · rename_i hlt
        cases h
        refine allNumbers_integer ⟨Int.le_trans (by decide) (Int.natCast_nonneg _), ?_⟩
        exact Int.ofNat_lt.mpr hlt
      · cases h
    · cases h
  · cases h

theorem allNumbers_typed? {tag : Option String} {text : String} {style : Style} {c : Content}
    (h : typed? tag text style = some c) : c.AllNumbers yamlNumbers := by
  have htext : (Content.text text).AllNumbers yamlNumbers :=
    Content.allNumbers_scalar (by simp) (by simp) trivial
  unfold typed? at h
  split at h
  · split at h
    · exact allNumbers_plain? h
    · cases h
      exact htext
  · split at h
    · cases h
    · split at h
      · obtain ⟨b, -, rfl⟩ := Option.map_eq_some_iff.mp h
        exact Content.allNumbers_scalar (by simp) (by simp) trivial
      · split at h
        · cases hinteger : integerContent? text.toList with
          | none =>
            rw [hinteger] at h
            cases h
          | some content =>
            rw [hinteger] at h
            exact allNumbers_integerContent? (hinteger.trans (congrArg some h))
        · split at h
          · obtain ⟨x, hx, rfl⟩ := Option.map_eq_some_iff.mp h
            exact allNumbers_float (inFormat_float? hx)
          · split at h
            · split at h
              · cases h
                exact Content.allNumbers_scalar (by simp) (by simp) trivial
              · cases h
            · cases h
              exact htext

end Scalar

/-! ## Readings -/

/-- The results of a reading have a property. -/
def Yields {α : Type} (P : α → Prop) (reading : Reading α) : Prop :=
  ∀ left a left', reading left = some (a, left') → P a

section Yields

variable {α β : Type} {P : α → Prop} {Q : β → Prop}

theorem yields_true (reading : Reading α) : Yields (fun _ => True) reading := fun _ _ _ _ => trivial

theorem yields_pure {a : α} (h : P a) : Yields P (pure a) := by
  rintro left b left' hb
  cases hb
  exact h

theorem yields_failure : Yields P failure := fun _ _ _ h => by cases h

theorem Yields.bind {reading : Reading α} {f : α → Reading β} (h : Yields P reading)
    (hf : ∀ a, P a → Yields Q (f a)) : Yields Q (reading >>= f) := by
  intro left b left' hb
  obtain ⟨⟨a, middle⟩, ha, hb⟩ := Option.bind_eq_some_iff.mp hb
  exact hf a (h left a middle ha) middle b left' hb

theorem Yields.map {reading : Reading α} {f : α → β} (h : Yields P reading)
    (hf : ∀ a, P a → Q (f a)) : Yields Q (f <$> reading) := by
  rintro left b left' hb
  obtain ⟨⟨a, middle⟩, ha, hb⟩ := Option.bind_eq_some_iff.mp hb
  cases hb
  exact hf a (h left a _ ha)

theorem yields_lift {x : Option α} (h : ∀ a, x = some a → P a) : Yields P (StateT.lift x) := by
  intro left a left' ha
  obtain ⟨found, hfound, heq⟩ := Option.bind_eq_some_iff.mp ha
  cases heq
  exact h a hfound

theorem yields_mapM {l : List α} {f : α → Reading β} (h : ∀ a ∈ l, Yields Q (f a)) :
    Yields (fun results => ∀ b ∈ results, Q b) (l.mapM f) := by
  induction l with
  | nil =>
    rw [List.mapM_nil]
    exact yields_pure (by simp)
  | cons a rest ih =>
    rw [List.forall_mem_cons] at h
    rw [List.mapM_cons]
    exact h.1.bind fun b hb => (ih h.2).bind fun bs hbs =>
      yields_pure (List.forall_mem_cons.mpr ⟨hb, hbs⟩)

end Yields

/-! ## Nodes -/

namespace Document

variable (d : Document)

/-- The entries of a mapping are read one after the other. -/
theorem yields_object {entries : List (Node × Node)} {f : Node × Node → Reading (Key × Content)}
    (h : ∀ e, Yields (fun entry => entry.2.AllNumbers yamlNumbers) (f e)) :
    Yields (Content.AllNumbers yamlNumbers)
      (entries.mapM f >>= fun entries => pure (.object entries)) :=
  (yields_mapM fun e _ => h e).bind fun _ hentries =>
    yields_pure (Content.allNumbers_object hentries)

/-- A node that is read as it stands. -/
theorem yields_content (textKeys : Bool) (depth : Nat) (node : Node) :
    Yields (Content.AllNumbers yamlNumbers) (d.content textKeys depth node) := by
  induction depth using Nat.strongRecOn generalizing node with
  | ind depth ih =>
    unfold content
    refine (yields_true _).bind fun node _ => ?_
    cases node with
    | «alias» number => exact yields_failure
    | scalar tag text style => exact yields_lift fun _ => Scalar.allNumbers_typed?
    | sequence tag items =>
      cases depth with
      | zero => exact yields_failure
      | succ depth =>
        have ih := ih depth (Nat.lt_succ_self depth)
        dsimp only
        split
        · exact yields_failure.bind fun _ h => h
        · exact (yields_mapM fun item _ => ih item).map fun _ => Content.allNumbers_array
    | mapping tag entries =>
      cases depth with
      | zero => exact yields_failure
      | succ depth =>
        have ih := ih depth (Nat.lt_succ_self depth)
        dsimp only
        split
        · exact yields_failure.bind fun _ h => h
        · refine yields_object fun e => ?_
          have hvalue : ∀ key : Key, Yields (fun entry => entry.2.AllNumbers yamlNumbers)
              (d.content textKeys depth e.2 >>= fun value => pure (key, value)) := fun key =>
            (ih e.2).bind fun value hv => yields_pure hv
          split
          · exact (yields_true _).bind fun key _ => hvalue key
          · exact (yields_true _).bind fun key _ => hvalue key

/-- A scalar where one of some kind is wanted. -/
theorem yields_scalar (shape : Shape) (node : Node) :
    Yields (Content.AllNumbers yamlNumbers) (scalar shape node) := by
  unfold scalar
  split
  · exact yields_pure (Content.allNumbers_scalar (by simp) (by simp) trivial)
  · exact yields_lift fun _ => Scalar.allNumbers_flag?
  · exact yields_lift fun _ => Scalar.allNumbers_natural?
  · exact yields_lift fun _ => Scalar.allNumbers_number?
  · exact yields_failure

/-- A node that is read along a shape. -/
theorem yields_read (depth : Nat) (shape : Shape) (node : Node) :
    Yields (Content.AllNumbers yamlNumbers) (d.read depth shape node) := by
  induction depth using Nat.strongRecOn generalizing shape node with
  | ind depth ih =>
    unfold read
    refine (yields_true _).bind fun node _ => (yields_true _).bind fun absent _ => ?_
    split
    · exact yields_pure (Content.allNumbers_scalar (by simp) (by simp) trivial)
    · cases shape.bare with
      | free => exact d.yields_content true depth node
      | choice name fits => exact d.yields_content false depth node
      | list item =>
        dsimp only
        split
        · exact yields_pure (Content.allNumbers_array (by simp))
        · cases depth with
          | zero => exact yields_failure
          | succ depth =>
            cases node with
            | sequence tag items =>
              exact (yields_mapM fun node _ => ih depth (Nat.lt_succ_self depth) item node).map
                fun _ => Content.allNumbers_array
            | _ => exact yields_failure
      | table value =>
        dsimp only
        split
        · exact yields_pure (Content.allNumbers_object (by simp))
        · cases depth with
          | zero => exact yields_failure
          | succ depth =>
            cases node with
            | mapping tag entries =>
              exact yields_object fun e => (yields_true _).bind fun name _ =>
                (ih depth (Nat.lt_succ_self depth) value e.2).bind fun c hc => yields_pure hc
            | _ => exact yields_failure
      | record name fields =>
        dsimp only
        split
        · exact yields_pure (Content.allNumbers_object (by simp))
        · cases depth with
          | zero => exact yields_failure
          | succ depth =>
            cases node with
            | mapping tag entries =>
              refine (yields_mapM (Q := fun entry : Option (Key × Content) =>
                ∀ e ∈ entry, e.2.AllNumbers yamlNumbers) fun entry _ => ?_).bind
                  fun results hresults => yields_pure (Content.allNumbers_object fun e he => ?_)
              · refine (yields_true _).bind fun name _ => ?_
                split
                · refine (ih depth (Nat.lt_succ_self depth) _ entry.2).bind fun c hc =>
                    yields_pure fun e he => ?_
                  cases he
                  exact hc
                · exact yields_pure fun e he => by cases he
              · obtain ⟨entry, hentry, he⟩ := List.mem_filterMap.mp he
                exact hresults entry hentry e he
            | _ => exact yields_failure
      | _ => exact yields_scalar _ _

end Document

/-- The content of a YAML text has no other numbers. -/
theorem allNumbers_contentOf? {shape : Shape} {text : String} {c : Content}
    (h : contentOf? shape text = some c) : c.AllNumbers yamlNumbers := by
  simp only [contentOf?, Option.bind_eq_bind, Option.bind_eq_some_iff, Option.pure_def,
    Option.some_inj] at h
  obtain ⟨tokens, -, document, -, ⟨c', left⟩, hread, rfl⟩ := h
  exact document.yields_read _ _ _ _ _ _ hread

end ProviderSchema.Yaml
