import ClassRom.Proofs.Text.Groups

/-!
# Bytes by masks

The bytes of a text by shifts and masks on machine words. A byte of a group is a field of the code
point beside a mark that takes the bits above the field, so the mark is as good as added. A
supplementary character is written without going through its surrogates: the plane is one field of
four bits, from which one is taken off, and the last plane, whose number does not fit into four
bits, wraps round to the right value. So the encoder of characters writes what the encoder of units
does.
-/

namespace ClassRom.ModifiedUtf8

set_option autoImplicit false

/-- The group of a code point below U+10000. -/
def maskedGroup (code : UInt32) : Bytes :=
  if code ≠ 0 ∧ code < 0x80 then
    [code.toUInt8]
  else if code < 0x800 then
    [(code >>> 6 &&& 0x1F).toUInt8 ||| 0xC0, (code &&& 0x3F).toUInt8 ||| 0x80]
  else
    [(code >>> 12 &&& 0x0F).toUInt8 ||| 0xE0, (code >>> 6 &&& 0x3F).toUInt8 ||| 0x80,
      (code &&& 0x3F).toUInt8 ||| 0x80]

def maskedUnit (unit : UInt16) : Bytes := maskedGroup unit.toUInt32

/-- The bytes of a character. The subtraction is that of machine words, so zero becomes 255. -/
def maskedChar (c : Char) : Bytes :=
  if c.val < 0x10000 then
    maskedGroup c.val
  else
    [0xED, ((c.val >>> 16 &&& 0x0F).toUInt8 - 1) &&& 0x0F ||| 0xA0,
      (c.val >>> 10 &&& 0x3F).toUInt8 ||| 0x80,
      0xED, (c.val >>> 6 &&& 0x0F).toUInt8 ||| 0xB0, (c.val &&& 0x3F).toUInt8 ||| 0x80]

/-! ### Fields and marks -/

theorem toNat_mask (code : UInt32) {mask : UInt32} {bits : Nat}
    (hMask : mask.toNat = 2 ^ bits - 1) : (code &&& mask).toNat = code.toNat % 2 ^ bits := by
  rw [UInt32.toNat_and, hMask, Nat.and_two_pow_sub_one_eq_mod]

theorem toNat_field (code : UInt32) {shift mask : UInt32} {bits : Nat} (hShift : shift.toNat < 32)
    (hMask : mask.toNat = 2 ^ bits - 1) :
    (code >>> shift &&& mask).toNat = code.toNat / 2 ^ shift.toNat % 2 ^ bits := by
  rw [toNat_mask _ hMask, UInt32.toNat_shiftRight, Nat.shiftRight_eq_div_pow,
    Nat.mod_eq_of_lt hShift]

theorem toUInt8_eq (code : UInt32) : code.toUInt8 = UInt8.ofNat code.toNat := rfl

/-- A mark that takes the bits above a field is as good as added to it. -/
theorem or_mark {field : UInt32} {bits mark : Nat} (hField : field.toNat < 2 ^ bits)
    (hMark : 2 ^ bits ∣ mark) :
    field.toUInt8 ||| UInt8.ofNat mark = UInt8.ofNat (mark + field.toNat) := by
  obtain ⟨high, rfl⟩ := hMark
  rw [Nat.two_pow_add_eq_or_of_lt hField, UInt8.ofNat_or, UInt8.or_comm, toUInt8_eq]

theorem marked_field (code shift mask : UInt32) (bits mark : Nat) (hShift : shift.toNat < 32)
    (hMask : mask.toNat = 2 ^ bits - 1) (hMark : 2 ^ bits ∣ mark) :
    (code >>> shift &&& mask).toUInt8 ||| UInt8.ofNat mark =
      UInt8.ofNat (mark + code.toNat / 2 ^ shift.toNat % 2 ^ bits) := by
  have hField := toNat_field code hShift hMask
  have hLt : (code >>> shift &&& mask).toNat < 2 ^ bits := by
    rw [hField]
    exact Nat.mod_lt _ (Nat.two_pow_pos bits)
  rw [or_mark hLt hMark, hField]

theorem marked_low (code : UInt32) :
    (code &&& 0x3F).toUInt8 ||| 0x80 = UInt8.ofNat (0x80 + code.toNat % 64) := by
  have hField : (code &&& 0x3F).toNat = code.toNat % 64 :=
    toNat_mask code (show (0x3F : UInt32).toNat = 2 ^ 6 - 1 from rfl)
  have hLt : (code &&& 0x3F).toNat < 2 ^ 6 := by
    rw [hField]
    exact Nat.mod_lt _ (by decide)
  rw [show (0x80 : UInt8) = UInt8.ofNat 0x80 from rfl, or_mark hLt (by decide), hField]

/-- The byte for the plane of a supplementary character. The four bits of the last plane are zero,
and one less than zero is fifteen again. -/
theorem marked_plane {field : UInt32} {plane : Nat} (hPlane : 1 ≤ plane ∧ plane ≤ 16)
    (hField : field.toNat = plane % 16) :
    (field.toUInt8 - 1) &&& 0x0F ||| 0xA0 = UInt8.ofNat (0xA0 + (plane - 1)) := by
  have hAll : ∀ plane : Fin 17, 1 ≤ plane.val →
      (UInt8.ofNat (plane.val % 16) - 1) &&& 0x0F ||| 0xA0 =
        UInt8.ofNat (0xA0 + (plane.val - 1)) := by decide
  rw [toUInt8_eq, hField]
  exact hAll ⟨plane, Nat.lt_succ_of_le hPlane.2⟩ hPlane.1

/-! ### The two encoders -/

theorem maskedGroup_eq {code : UInt32} {unit : UInt16} (h : code.toNat = unit.toNat) :
    maskedGroup code = encodeUnit unit := by
  have hLt : unit.toNat < 65536 := unit.toNat_lt
  have hOne : (code ≠ 0 ∧ code < 0x80) ↔ unit.toNat ≠ 0 ∧ unit.toNat < 0x80 := by
    rw [← h, UInt32.lt_iff_toNat_lt, ne_eq, ← UInt32.toNat_inj]
    rfl
  have hTwo : code < 0x800 ↔ unit.toNat < 0x800 := by
    rw [← h, UInt32.lt_iff_toNat_lt]
    rfl
  unfold maskedGroup encodeUnit
  dsimp only
  by_cases hShort : unit.toNat ≠ 0 ∧ unit.toNat < 0x80
  · rw [if_pos (hOne.mpr hShort), if_pos hShort, toUInt8_eq, h]
  rw [if_neg (mt hOne.mp hShort), if_neg hShort, marked_low, h]
  by_cases hMiddle : unit.toNat < 0x800
  · -- the masks of first bytes drop nothing, since the code point is small enough for its group
    have hLead : (code >>> 6 &&& 0x1F).toUInt8 ||| 0xC0 =
        UInt8.ofNat (0xC0 + code.toNat / 64 % 32) :=
      marked_field code 6 0x1F 5 0xC0 (by decide) rfl (by decide)
    rw [if_pos (hTwo.mpr hMiddle), if_pos hMiddle, hLead, h,
      Nat.mod_eq_of_lt (show unit.toNat / 64 < 32 by omega)]
  · have hLead : (code >>> 12 &&& 0x0F).toUInt8 ||| 0xE0 =
        UInt8.ofNat (0xE0 + code.toNat / 4096 % 16) :=
      marked_field code 12 0x0F 4 0xE0 (by decide) rfl (by decide)
    have hNext : (code >>> 6 &&& 0x3F).toUInt8 ||| 0x80 =
        UInt8.ofNat (0x80 + code.toNat / 64 % 64) :=
      marked_field code 6 0x3F 6 0x80 (by decide) rfl (by decide)
    rw [if_neg (mt hTwo.mp hMiddle), if_neg hMiddle, hLead, hNext, h,
      Nat.mod_eq_of_lt (show unit.toNat / 4096 < 16 by omega)]

theorem maskedUnit_eq (unit : UInt16) : maskedUnit unit = encodeUnit unit :=
  maskedGroup_eq (UInt16.toNat_toUInt32 unit)

theorem maskedChar_eq (c : Char) : maskedChar c = encodeChar c := by
  have hSmall : c.val < 0x10000 ↔ c.toNat < 0x10000 := UInt32.lt_iff_toNat_lt
  unfold maskedChar
  by_cases hPlane : c.toNat < 0x10000
  · have hUnit : (UInt16.ofNat c.toNat).toNat = c.toNat := UInt16.toNat_ofNat_of_lt' hPlane
    rw [if_pos (hSmall.mpr hPlane), encodeChar_eq, Utf16.ofChar, if_pos hPlane, encodeUnits,
      List.flatMap_singleton]
    exact maskedGroup_eq hUnit.symm
  · have hValid := Utf16.toNat_valid c
    have hField : (c.val >>> 16 &&& 0x0F).toNat = c.toNat / 65536 % 16 :=
      toNat_field c.val (by decide) (show (0x0F : UInt32).toNat = 2 ^ 4 - 1 from rfl)
    have hB : ((c.val >>> 16 &&& 0x0F).toUInt8 - 1) &&& 0x0F ||| 0xA0 =
        UInt8.ofNat (0xA0 + (c.toNat / 65536 - 1)) := marked_plane (by omega) hField
    have hC : (c.val >>> 10 &&& 0x3F).toUInt8 ||| 0x80 =
        UInt8.ofNat (0x80 + c.toNat / 1024 % 64) :=
      marked_field c.val 10 0x3F 6 0x80 (by decide) rfl (by decide)
    have hE : (c.val >>> 6 &&& 0x0F).toUInt8 ||| 0xB0 = UInt8.ofNat (0xB0 + c.toNat / 64 % 16) :=
      marked_field c.val 6 0x0F 4 0xB0 (by decide) rfl (by decide)
    have hF : (c.val &&& 0x3F).toUInt8 ||| 0x80 = UInt8.ofNat (0x80 + c.toNat % 64) :=
      marked_low c.val
    unfold encodeChar
    dsimp only
    rw [if_neg (mt hSmall.mp hPlane), hB, hC, hE, hF, if_neg (by omega), if_neg (by omega),
      if_neg hPlane]

/-- The characters of a string, by masks or not, are written as the units of its UTF-16 form are. -/
theorem encoders_agree (string : String) :
    encodeChars string.toList = encodeUnits (Utf16.encode string.toList) ∧
      encodeChars string.toList = string.toList.flatMap maskedChar ∧
      encodeUnits (Utf16.encode string.toList) =
        (Utf16.encode string.toList).flatMap maskedUnit := by
  refine ⟨encodeChars_eq string.toList, ?_, ?_⟩
  · exact List.flatMap_congr fun c _ => (maskedChar_eq c).symm
  · exact List.flatMap_congr fun unit _ => (maskedUnit_eq unit).symm

end ClassRom.ModifiedUtf8
