import Mathlib.Data.String.Basic

/-!
# Texts in byte order

Texts are compared character by character.  Their UTF-8 encodings compare alike, byte by
byte (`bytes_lt_iff`): of two characters the smaller one has an encoding that is smaller at
some byte, before either of them ends (`utf8EncodeChar_append_lt`).
-/

namespace ProviderSchema.Text

/-- The bytes of a text in UTF-8. -/
def bytes (text : String) : List UInt8 := text.toUTF8.data.toList

theorem bytes_eq_flatMap (text : String) :
    bytes text = text.toList.flatMap String.utf8EncodeChar := by
  unfold bytes
  rw [String.toUTF8_eq_toByteArray, ← String.utf8Encode_toList, List.utf8Encode,
    List.data_toByteArray]

/-- The encoding of a smaller character is smaller at some byte, whatever follows. -/
theorem utf8EncodeChar_append_lt {c d : Char} (h : c < d) (rest rest' : List UInt8) :
    String.utf8EncodeChar c ++ rest < String.utf8EncodeChar d ++ rest' := by
  have hlt : c.val.toNat < d.val.toNat := h
  have hd : d.val.toNat < 1114112 := by
    have hvalid := d.valid
    simp only [UInt32.isValidChar, Nat.isValidChar] at hvalid
    omega
  unfold String.utf8EncodeChar
  generalize c.val.toNat = m at *
  generalize d.val.toNat = n at *
  dsimp only
  split_ifs
  all_goals simp only [List.cons_append, List.nil_append, List.cons_lt_cons_iff,
    UInt8.lt_iff_toNat_lt, ← UInt8.toNat_inj, UInt8.toNat_ofNat']
  -- a longer encoding begins with a larger byte, and a single byte is the character itself
  all_goals try exact .inl (by omega)
  -- two encodings of the same length differ first where the quotients do
  · rcases Nat.lt_or_ge (m / 64) (n / 64) with hfirst | hfirst
    · exact .inl (by omega)
    · exact .inr ⟨by omega, .inl (by omega)⟩
  · rcases Nat.lt_or_ge (m / 4096) (n / 4096) with hfirst | hfirst
    · exact .inl (by omega)
    · rcases Nat.lt_or_ge (m / 64) (n / 64) with hsecond | hsecond
      · exact .inr ⟨by omega, .inl (by omega)⟩
      · exact .inr ⟨by omega, .inr ⟨by omega, .inl (by omega)⟩⟩
  · rcases Nat.lt_or_ge (m / 262144) (n / 262144) with hfirst | hfirst
    · exact .inl (by omega)
    · rcases Nat.lt_or_ge (m / 4096) (n / 4096) with hsecond | hsecond
      · exact .inr ⟨by omega, .inl (by omega)⟩
      · rcases Nat.lt_or_ge (m / 64) (n / 64) with hthird | hthird
        · exact .inr ⟨by omega, .inr ⟨by omega, .inl (by omega)⟩⟩
        · exact .inr ⟨by omega, .inr ⟨by omega, .inr ⟨by omega, .inl (by omega)⟩⟩⟩

theorem flatMap_utf8EncodeChar_lt {l l' : List Char} (h : l < l') :
    l.flatMap String.utf8EncodeChar < l'.flatMap String.utf8EncodeChar := by
  induction h with
  | @nil c rest =>
    rw [List.flatMap_nil, List.flatMap_cons]
    obtain ⟨b, bytes, hbytes⟩ := List.exists_cons_of_ne_nil (String.utf8EncodeChar_ne_nil (c := c))
    rw [hbytes]
    exact List.nil_lt_cons b _
  | cons _ ih =>
    rw [List.flatMap_cons, List.flatMap_cons]
    exact List.append_left_lt ih
  | rel hlt =>
    rw [List.flatMap_cons, List.flatMap_cons]
    exact utf8EncodeChar_append_lt hlt _ _

/-- Texts are ordered as their bytes are. -/
theorem bytes_lt_iff {s t : String} : bytes s < bytes t ↔ s < t := by
  have hlt {s t : String} (h : s < t) : bytes s < bytes t := by
    rw [bytes_eq_flatMap, bytes_eq_flatMap]
    exact flatMap_utf8EncodeChar_lt (String.lt_iff_toList_lt.mp h)
  refine ⟨fun h => ?_, hlt⟩
  rcases lt_trichotomy s t with hst | rfl | hts
  · exact hst
  · exact absurd h (List.lt_irrefl _)
  · exact absurd h (List.lt_asymm (hlt hts))

end ProviderSchema.Text
