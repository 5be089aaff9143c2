import RoleLint.Proofs.ByteOrder
import RoleLint.RawText

/- Raw texts and the texts among them.

   1. `decode_utf8EncodeChar` - the bytes of a character, whatever follows them, are read as
      that character and leave nothing begun.
   2. `IsText`, `text?_eq_some_iff` - a raw text is a text if it has the bytes of one; that one
      is found, and is what is shown. -/
namespace RoleLint.RawText

/-! ## Decoding what was encoded -/

theorem decode_cons (state : Option Begun) (b : UInt8) (bs : List UInt8) :
    decode state (b :: bs) =
      (step state b.toNat).1 ++ decode (step state b.toNat).2 bs := by
  cases state <;> rfl

theorem step_lead {b : Nat} {p : Begun} (h : begun? b = some p) : step none b = ([], some p) := by
  have hb : ¬ b < 0x80 := by
    intro hlt
    rw [begun?, if_pos (by omega)] at h
    cases h
  simp only [step, start, if_neg hb, h]

theorem step_last {bits low high b : Nat} (hlow : low ≤ b) (hhigh : b ≤ high) :
    step (some ⟨bits, low, high, 0⟩) b = ([Char.ofNat (bits * 0x40 + (b - 0x80))], none) := by
  simp only [step, if_pos (And.intro hlow hhigh)]

theorem step_more {bits low high more b : Nat} (hlow : low ≤ b) (hhigh : b ≤ high) :
    step (some ⟨bits, low, high, more + 1⟩) b =
      ([], some ⟨bits * 0x40 + (b - 0x80), 0x80, 0xbf, more⟩) := by
  simp only [step, if_pos (And.intro hlow hhigh)]

theorem decode_two {c : Char} {x y : UInt8} (rest : List UInt8) (hmin : 0x7f < c.toNat)
    (hmax : c.toNat ≤ 0x7ff) (hx : x.toNat = c.toNat / 0x40 + 0xc0)
    (hy : y.toNat = c.toNat % 0x40 + 0x80) :
    decode none (x :: y :: rest) = c :: decode none rest := by
  have hlead : begun? x.toNat = some ⟨c.toNat / 0x40, 0x80, 0xbf, 0⟩ := by
    rw [begun?, if_neg (by omega), if_pos (by omega), hx, Nat.add_sub_cancel]
  have hbits : c.toNat / 0x40 * 0x40 + (y.toNat - 0x80) = c.toNat := by omega
  rw [decode_cons, step_lead hlead, decode_cons, step_last (by omega) (by omega), hbits,
    Char.ofNat_toNat]
  rfl

theorem decode_three {c : Char} {x y z : UInt8} (rest : List UInt8) (hmin : 0x7ff < c.toNat)
    (hmax : c.toNat ≤ 0xffff) (hx : x.toNat = c.toNat / 0x1000 + 0xe0)
    (hy : y.toNat = c.toNat / 0x40 % 0x40 + 0x80) (hz : z.toNat = c.toNat % 0x40 + 0x80) :
    decode none (x :: y :: z :: rest) = c :: decode none rest := by
  have hvalid : c.toNat < 0xd800 ∨ 0xdfff < c.toNat ∧ c.toNat < 0x110000 := c.valid
  -- The second byte keeps the bounds that the leading one sets: a character below 0x1000 is
  -- at least 0x800, and there is none between 0xd800 and 0xdfff.
  obtain ⟨low, high, hlead, hlow, hhigh⟩ : ∃ low high,
      begun? x.toNat = some ⟨c.toNat / 0x1000, low, high, 1⟩ ∧ low ≤ y.toNat ∧ y.toNat ≤ high := by
    rw [begun?, if_neg (by omega), if_neg (by omega)]
    by_cases h0 : x.toNat = 0xe0
    · have hfirst : c.toNat / 0x1000 = 0 := by omega
      exact ⟨0xa0, 0xbf, by rw [if_pos h0, hfirst], by omega, by omega⟩
    · by_cases hd : x.toNat = 0xed
      · have hfirst : c.toNat / 0x1000 = 0xd := by omega
        exact ⟨0x80, 0x9f, by rw [if_neg h0, if_pos hd, hfirst], by omega, by omega⟩
      · refine ⟨0x80, 0xbf, ?_, by omega, by omega⟩
        rw [if_neg h0, if_neg hd, if_pos (by omega), hx, Nat.add_sub_cancel]
  have hbits : (c.toNat / 0x1000 * 0x40 + (y.toNat - 0x80)) * 0x40 + (z.toNat - 0x80) =
      c.toNat := by omega
  rw [decode_cons, step_lead hlead, decode_cons, step_more hlow hhigh, decode_cons,
    step_last (by omega) (by omega), hbits, Char.ofNat_toNat]
  rfl

theorem decode_four {c : Char} {w x y z : UInt8} (rest : List UInt8) (hmin : 0xffff < c.toNat)
    (hw : w.toNat = c.toNat / 0x40000 + 0xf0) (hx : x.toNat = c.toNat / 0x1000 % 0x40 + 0x80)
    (hy : y.toNat = c.toNat / 0x40 % 0x40 + 0x80) (hz : z.toNat = c.toNat % 0x40 + 0x80) :
    decode none (w :: x :: y :: z :: rest) = c :: decode none rest := by
  have hc := toNat_lt c
  obtain ⟨low, high, hlead, hlow, hhigh⟩ : ∃ low high,
      begun? w.toNat = some ⟨c.toNat / 0x40000, low, high, 2⟩ ∧ low ≤ x.toNat ∧
        x.toNat ≤ high := by
    rw [begun?, if_neg (by omega), if_neg (by omega), if_neg (by omega), if_neg (by omega),
      if_neg (by omega)]
    by_cases h0 : w.toNat = 0xf0
    · have hfirst : c.toNat / 0x40000 = 0 := by omega
      exact ⟨0x90, 0xbf, by rw [if_pos h0, hfirst], by omega, by omega⟩
    · by_cases h4 : w.toNat < 0xf4
      · refine ⟨0x80, 0xbf, ?_, by omega, by omega⟩
        rw [if_neg h0, if_pos h4, hw, Nat.add_sub_cancel]
      · have hfirst : c.toNat / 0x40000 = 4 := by omega
        refine ⟨0x80, 0x8f, ?_, by omega, by omega⟩
        rw [if_neg h0, if_neg h4, if_pos (by omega), hfirst]
  have hbits : ((c.toNat / 0x40000 * 0x40 + (x.toNat - 0x80)) * 0x40 + (y.toNat - 0x80)) * 0x40 +
      (z.toNat - 0x80) = c.toNat := by omega
  rw [decode_cons, step_lead hlead, decode_cons, step_more hlow hhigh, decode_cons,
    step_more (by omega) (by omega), decode_cons, step_last (by omega) (by omega), hbits,
    Char.ofNat_toNat]
  rfl

/-- **The bytes of a character are read as that character**, whatever follows them. -/
theorem decode_utf8EncodeChar (c : Char) (rest : List UInt8) :
    decode none (String.utf8EncodeChar c ++ rest) = c :: decode none rest := by
  have hbytes := charBytes_eq c
  unfold charBytes at hbytes
  -- one, two, three or four bytes
  split_ifs at hbytes with h1 h2 h3
  · obtain ⟨x, _, hcons, hx, hnil⟩ := List.map_eq_cons_iff.mp hbytes
    rw [hcons, List.map_eq_nil_iff.mp hnil, List.singleton_append, decode_cons, step, start, hx,
      if_pos (by omega), Char.ofNat_toNat]
    rfl
  · obtain ⟨x, _, hcons, hx, htail⟩ := List.map_eq_cons_iff.mp hbytes
    obtain ⟨y, _, rfl, hy, hnil⟩ := List.map_eq_cons_iff.mp htail
    rw [hcons, List.map_eq_nil_iff.mp hnil]
    exact decode_two rest (by omega) h2 hx hy
  · obtain ⟨x, _, hcons, hx, htail⟩ := List.map_eq_cons_iff.mp hbytes
    obtain ⟨y, _, rfl, hy, htail⟩ := List.map_eq_cons_iff.mp htail
    obtain ⟨z, _, rfl, hz, hnil⟩ := List.map_eq_cons_iff.mp htail
    rw [hcons, List.map_eq_nil_iff.mp hnil]
    exact decode_three rest (by omega) h3 hx hy hz
  · obtain ⟨w, _, hcons, hw, htail⟩ := List.map_eq_cons_iff.mp hbytes
    obtain ⟨x, _, rfl, hx, htail⟩ := List.map_eq_cons_iff.mp htail
    obtain ⟨y, _, rfl, hy, htail⟩ := List.map_eq_cons_iff.mp htail
    obtain ⟨z, _, rfl, hz, hnil⟩ := List.map_eq_cons_iff.mp htail
    rw [hcons, List.map_eq_nil_iff.mp hnil]
    exact decode_four rest (by omega) hw hx hy hz

theorem decode_encode (cs : List Char) : decode none (encode cs) = cs := by
  induction cs with
  | nil => rfl
  | cons c cs ih =>
    rw [encode, List.flatMap_cons, decode_utf8EncodeChar]
    exact congrArg (c :: ·) ih

/-! ## Raw texts that are texts -/

/-- The bytes are those of a text. -/
def IsText (r : RawText) : Prop := ∃ s, r = ofString s

@[simp] theorem shown_ofString (s : String) : (ofString s).shown = s := by
  rw [shown, chars, ofString, decode_encode, String.ofList_toList]

@[simp] theorem text?_ofString (s : String) : (ofString s).text? = some s := by
  have hbytes : encode (ofString s).chars = (ofString s).bytes := by
    rw [chars, ofString, decode_encode]
  rw [text?, if_pos hbytes, shown_ofString]

/-- **A raw text is the text that is found in it.** -/
theorem text?_eq_some_iff {r : RawText} {s : String} : r.text? = some s ↔ r = ofString s := by
  refine ⟨fun h => ?_, fun h => h ▸ text?_ofString s⟩
  rw [text?] at h
  split_ifs at h with hbytes
  · cases h
    rw [shown, ofString, String.toList_ofList, hbytes]

theorem isText_iff {r : RawText} : r.IsText ↔ r.text?.isSome := by
  simp only [IsText, Option.isSome_iff_exists, text?_eq_some_iff]

instance (r : RawText) : Decidable r.IsText :=
  decidable_of_iff _ isText_iff.symm

@[simp] theorem isText_ofString (s : String) : (ofString s).IsText := ⟨s, rfl⟩

end RoleLint.RawText
