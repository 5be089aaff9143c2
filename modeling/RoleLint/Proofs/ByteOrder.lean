import Mathlib.Data.String.Basic
import Mathlib.Order.Monotone.Basic

/- Texts compared by their bytes. Names and identifiers are compared character by
   character; in UTF-8 this is the order of the bytes.

   1. `utf8Bytes` - the bytes of a text, as numbers.
   2. `charBytes_lt` - the bytes of two characters differ before either of them ends, and
      the first byte that differs decides as the characters do.
   3. `utf8Bytes_le_iff`, `utf8Bytes_inj` - the order of texts is that of their bytes, and
      the bytes tell all texts apart. -/
namespace RoleLint

/-- The bytes of a text in UTF-8. -/
def utf8Bytes (s : String) : List Nat :=
  s.toUTF8.data.toList.map UInt8.toNat

/-- The bytes of a character. -/
def charBytes (c : Char) : List Nat :=
  (String.utf8EncodeChar c).map UInt8.toNat

theorem utf8Bytes_eq (s : String) : utf8Bytes s = s.toList.flatMap charBytes := by
  have hbytes : s.toUTF8.data.toList = s.toList.flatMap String.utf8EncodeChar := by
    conv_lhs => rw [← String.ofList_toList (s := s), String.toUTF8_eq_toByteArray,
      String.toByteArray_ofList]
    exact List.toList_data_toByteArray
  rw [utf8Bytes, hbytes, List.map_flatMap]
  rfl

theorem toNat_lt (c : Char) : c.toNat < 0x110000 := by
  have hvalid : c.toNat < 0xd800 ∨ 0xdfff < c.toNat ∧ c.toNat < 0x110000 := c.valid
  omega

/-- The leading byte of a character says how many bytes follow; these carry six bits of
    the character each. -/
theorem charBytes_eq (c : Char) : charBytes c =
    if c.toNat ≤ 0x7f then [c.toNat]
    else if c.toNat ≤ 0x7ff then [c.toNat / 0x40 + 0xc0, c.toNat % 0x40 + 0x80]
    else if c.toNat ≤ 0xffff then
      [c.toNat / 0x1000 + 0xe0, c.toNat / 0x40 % 0x40 + 0x80, c.toNat % 0x40 + 0x80]
    else
      [c.toNat / 0x40000 + 0xf0, c.toNat / 0x1000 % 0x40 + 0x80, c.toNat / 0x40 % 0x40 + 0x80,
        c.toNat % 0x40 + 0x80] := by
  have hc := toNat_lt c
  have hval : c.val.toNat = c.toNat := rfl
  unfold charBytes String.utf8EncodeChar
  simp only [hval]
  split_ifs <;>
    simp only [List.map_cons, List.map_nil, UInt8.toNat_ofNat', List.cons.injEq, and_true] <;> omega

/-- **The bytes of two characters compare as the characters do**, whatever follows. -/
theorem charBytes_lt {c d : Char} (h : c < d) (x y : List Nat) :
    charBytes c ++ x < charBytes d ++ y := by
  have hlt : c.toNat < d.toNat := h
  have hd := toNat_lt d
  rw [charBytes_eq, charBytes_eq]
  -- A character with fewer bytes has a smaller leading byte; with as many, the six bits
  -- at the first difference decide.
  split_ifs <;>
    simp only [List.cons_append, List.nil_append, List.cons_lt_cons_iff] <;> omega

theorem strictMono_flatMap_charBytes :
    StrictMono fun s : List Char => s.flatMap charBytes := by
  intro s t h
  show s.flatMap charBytes < t.flatMap charBytes
  induction s generalizing t with
  | nil =>
    cases t with
    | nil => exact absurd h (lt_irrefl _)
    | cons d t =>
      have hne : charBytes d ≠ [] := by
        rw [charBytes_eq]
        split_ifs <;> exact List.cons_ne_nil _ _
      obtain ⟨b, bs, hb⟩ := List.exists_cons_of_ne_nil hne
      rw [List.flatMap_cons, hb]
      exact List.nil_lt_cons _ _
  | cons c s ih =>
    cases t with
    | nil => exact absurd h (List.not_lt_nil _)
    | cons d t =>
      rw [List.flatMap_cons, List.flatMap_cons]
      rcases List.cons_lt_cons_iff.mp h with hlt | ⟨rfl, hlt⟩
      · exact charBytes_lt hlt _ _
      · exact List.append_left_lt (ih hlt)

/-- **The order of texts is the order of their bytes.** -/
theorem utf8Bytes_le_iff {a b : String} : utf8Bytes a ≤ utf8Bytes b ↔ a ≤ b := by
  rw [utf8Bytes_eq, utf8Bytes_eq, String.le_iff_toList_le]
  exact strictMono_flatMap_charBytes.le_iff_le

theorem utf8Bytes_inj {a b : String} : utf8Bytes a = utf8Bytes b ↔ a = b := by
  rw [utf8Bytes_eq, utf8Bytes_eq, ← String.toList_inj]
  exact strictMono_flatMap_charBytes.injective.eq_iff

end RoleLint
