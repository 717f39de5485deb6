import ClassRom.Text
import Mathlib.Data.List.Basic

/-!
# Texts and their encodings

UTF-16 reads back what it writes, and writes back what it reads as long as no surrogate is unpaired.
Modified UTF-8 reads back any sequence of units, and its encoder of characters agrees with its encoder
of units. So a text in normal form, which is kept as units only where no string spells them, is
recovered from its bytes.
-/

namespace ClassRom

set_option autoImplicit false

namespace Utf16

theorem isHigh_iff {unit : UInt16} :
    isHigh unit = true ↔ 0xD800 ≤ unit.toNat ∧ unit.toNat < 0xDC00 := by
  simp [isHigh, UInt16.le_iff_toNat_le, UInt16.lt_iff_toNat_lt]

theorem isLow_iff {unit : UInt16} :
    isLow unit = true ↔ 0xDC00 ≤ unit.toNat ∧ unit.toNat < 0xE000 := by
  simp [isLow, UInt16.le_iff_toNat_le, UInt16.lt_iff_toNat_lt]

theorem scalarsFrom_eq (units : List UInt16) (done : List (Option Char)) :
    scalarsFrom units done = done.reverse ++ scalars units := by
  match units with
  | [] => simp [scalars, scalarsFrom]
  | [unit] =>
    unfold scalars scalarsFrom
    split <;> simp
  | unit :: next :: rest =>
    unfold scalars
    rw [scalarsFrom, scalarsFrom]
    split
    · split
      · rw [scalarsFrom_eq rest, scalarsFrom_eq rest [_]]
        simp
      · rw [scalarsFrom_eq (next :: rest), scalarsFrom_eq (next :: rest) [_]]
        simp
    · split
      · rw [scalarsFrom_eq (next :: rest), scalarsFrom_eq (next :: rest) [_]]
        simp
      · rw [scalarsFrom_eq (next :: rest), scalarsFrom_eq (next :: rest) [_]]
        simp

section Scalars

variable {unit next : UInt16} (rest : List UInt16)

theorem scalars_plain (hHigh : ¬isHigh unit) (hLow : ¬isLow unit) :
    scalars (unit :: rest) = some (Char.ofNat unit.toNat) :: scalars rest := by
  cases rest with
  | nil => simp [scalars, scalarsFrom, hHigh, hLow]
  | cons next rest =>
    rw [scalars, scalarsFrom, if_neg hHigh, if_neg hLow, scalarsFrom_eq]
    rfl

theorem scalars_pair (hHigh : isHigh unit) (hLow : isLow next) :
    scalars (unit :: next :: rest) = some (pair unit next) :: scalars rest := by
  rw [scalars, scalarsFrom, if_pos hHigh, if_pos hLow, scalarsFrom_eq]
  rfl

theorem scalars_low (hLow : isLow unit) : scalars (unit :: rest) = none :: scalars rest := by
  have hHigh : ¬isHigh unit := by
    rw [isHigh_iff]
    have := isLow_iff.mp hLow
    omega
  cases rest with
  | nil => simp [scalars, scalarsFrom, hLow]
  | cons next rest =>
    rw [scalars, scalarsFrom, if_neg hHigh, if_pos hLow, scalarsFrom_eq]
    rfl

theorem scalars_high_last (hHigh : isHigh unit) : scalars [unit] = [none] := by
  simp [scalars, scalarsFrom, hHigh]

theorem scalars_high (hHigh : isHigh unit) (hLow : ¬isLow next) :
    scalars (unit :: next :: rest) = none :: scalars (next :: rest) := by
  rw [scalars, scalarsFrom, if_pos hHigh, if_neg hLow, scalarsFrom_eq]
  rfl

end Scalars

theorem toNat_valid (c : Char) : c.toNat < 0xD800 ∨ 0xDFFF < c.toNat ∧ c.toNat < 0x110000 := c.valid

theorem toNat_ofNat {n : Nat} (h : n < 0xD800 ∨ 0xDFFF < n ∧ n < 0x110000) :
    (Char.ofNat n).toNat = n := by
  have hValid : n.isValidChar := h
  unfold Char.ofNat
  rw [dif_pos hValid]
  rfl

theorem scalars_ofChar (c : Char) (rest : List UInt16) :
    scalars (ofChar c ++ rest) = some c :: scalars rest := by
  have hValid := toNat_valid c
  unfold ofChar
  split
  next hSmall =>
    have hUnit : (UInt16.ofNat c.toNat).toNat = c.toNat := UInt16.toNat_ofNat_of_lt' hSmall
    have hHigh : ¬isHigh (UInt16.ofNat c.toNat) := by
      rw [isHigh_iff, hUnit]
      omega
    have hLow : ¬isLow (UInt16.ofNat c.toNat) := by
      rw [isLow_iff, hUnit]
      omega
    rw [List.singleton_append, scalars_plain rest hHigh hLow, hUnit, Char.ofNat_toNat]
  next hLarge =>
    have hUnitHigh : (UInt16.ofNat (0xD800 + (c.toNat - 0x10000) / 1024)).toNat =
        0xD800 + (c.toNat - 0x10000) / 1024 :=
      UInt16.toNat_ofNat_of_lt' (by unfold UInt16.size; omega)
    have hUnitLow : (UInt16.ofNat (0xDC00 + (c.toNat - 0x10000) % 1024)).toNat =
        0xDC00 + (c.toNat - 0x10000) % 1024 :=
      UInt16.toNat_ofNat_of_lt' (by unfold UInt16.size; omega)
    rw [List.cons_append, List.singleton_append, scalars_pair]
    · unfold pair
      rw [hUnitHigh, hUnitLow]
      have hCode : 0x10000 + (0xD800 + (c.toNat - 0x10000) / 1024 - 0xD800) * 1024 +
          (0xDC00 + (c.toNat - 0x10000) % 1024 - 0xDC00) = c.toNat := by omega
      rw [hCode, Char.ofNat_toNat]
    · rw [isHigh_iff, hUnitHigh]
      omega
    · rw [isLow_iff, hUnitLow]
      omega

theorem scalars_encode (chars : List Char) : scalars (encode chars) = chars.map some := by
  induction chars with
  | nil => rfl
  | cons c chars ih =>
    unfold encode at ih ⊢
    rw [List.flatMap_cons, scalars_ofChar, ih, List.map_cons]

theorem decode?_eq_some_iff {units : List UInt16} {chars : List Char} :
    decode? units = some chars ↔ scalars units = chars.map some := by
  unfold decode?
  generalize scalars units = scalars
  induction scalars generalizing chars with
  | nil => cases chars <;> simp
  | cons scalar scalars ih =>
    cases scalar with
    | none => cases chars <;> simp
    | some c =>
      rw [List.mapM_cons, Option.bind_eq_bind, id, Option.bind_some, Option.bind_eq_bind,
        Option.bind_eq_some_iff]
      cases chars with
      | nil => simp
      | cons c' chars =>
        simp only [ih, Option.pure_def, Option.some.injEq, List.cons.injEq, List.map_cons]
        constructor
        · rintro ⟨rest, hRest, rfl, rfl⟩
          exact ⟨rfl, hRest⟩
        · rintro ⟨rfl, hRest⟩
          exact ⟨chars, hRest, rfl, rfl⟩

theorem decode?_encode (chars : List Char) : decode? (encode chars) = some chars :=
  decode?_eq_some_iff.mpr (scalars_encode chars)

theorem ofChar_plain {unit : UInt16} (hHigh : ¬isHigh unit) (hLow : ¬isLow unit) :
    ofChar (Char.ofNat unit.toNat) = [unit] := by
  have hLt := unit.toNat_lt
  rw [isHigh_iff] at hHigh
  rw [isLow_iff] at hLow
  unfold ofChar
  rw [toNat_ofNat (by omega), if_pos hLt, UInt16.ofNat_toNat]

theorem ofChar_pair {high low : UInt16} (hHigh : isHigh high) (hLow : isLow low) :
    ofChar (pair high low) = [high, low] := by
  rw [isHigh_iff] at hHigh
  rw [isLow_iff] at hLow
  unfold ofChar pair
  rw [toNat_ofNat (by omega), if_neg (by omega)]
  have hUnitHigh : 0xD800 + (0x10000 + (high.toNat - 0xD800) * 1024 + (low.toNat - 0xDC00) -
      0x10000) / 1024 = high.toNat := by omega
  have hUnitLow : 0xDC00 + (0x10000 + (high.toNat - 0xD800) * 1024 + (low.toNat - 0xDC00) -
      0x10000) % 1024 = low.toNat := by omega
  rw [hUnitHigh, hUnitLow, UInt16.ofNat_toNat, UInt16.ofNat_toNat]

theorem encode_of_scalars {units : List UInt16} {chars : List Char}
    (h : scalars units = chars.map some) : encode chars = units := by
  match units, chars with
  | [], [] => rfl
  | [], c :: chars => cases h
  | unit :: rest, chars =>
    by_cases hLow : isLow unit
    · rw [scalars_low rest hLow] at h
      cases chars <;> cases h
    by_cases hHigh : isHigh unit
    · match rest with
      | [] =>
        rw [scalars_high_last hHigh] at h
        cases chars <;> cases h
      | next :: rest =>
        by_cases hNext : isLow next
        · rw [scalars_pair rest hHigh hNext] at h
          match chars with
          | [] => cases h
          | c :: chars =>
            obtain ⟨hChar, hRest⟩ := List.cons.inj h
            have ih := encode_of_scalars hRest
            unfold encode at ih ⊢
            rw [List.flatMap_cons, ih, ← Option.some.inj hChar, ofChar_pair hHigh hNext]
            rfl
        · rw [scalars_high rest hHigh hNext] at h
          cases chars <;> cases h
    · rw [scalars_plain rest hHigh hLow] at h
      match chars with
      | [] => cases h
      | c :: chars =>
        obtain ⟨hChar, hRest⟩ := List.cons.inj h
        have ih := encode_of_scalars hRest
        unfold encode at ih ⊢
        rw [List.flatMap_cons, ih, ← Option.some.inj hChar, ofChar_plain hHigh hLow]
        rfl

theorem encode_of_decode? {units : List UInt16} {chars : List Char}
    (h : decode? units = some chars) : encode chars = units :=
  encode_of_scalars (decode?_eq_some_iff.mp h)

end Utf16

namespace ModifiedUtf8

theorem isContinuation_iff {byte : UInt8} :
    isContinuation byte = true ↔ 0x80 ≤ byte.toNat ∧ byte.toNat < 0xC0 := by
  simp [isContinuation, UInt8.le_iff_toNat_le, UInt8.lt_iff_toNat_lt]

section Groups

variable {a b c : UInt8} (rest : Bytes) (done : List UInt16)

theorem decodeFrom_one (hA : a.toNat < 0x80) :
    decodeFrom (a :: rest) done = decodeFrom rest (UInt16.ofNat a.toNat :: done) := by
  rw [decodeFrom.eq_def]
  dsimp only
  rw [if_pos (UInt8.lt_iff_toNat_lt.mpr hA)]

theorem decodeFrom_two (hA : 0xC0 ≤ a.toNat ∧ a.toNat < 0xE0) (hB : isContinuation b) :
    decodeFrom (a :: b :: rest) done =
      decodeFrom rest (UInt16.ofNat ((a.toNat - 0xC0) * 64 + (b.toNat - 0x80)) :: done) := by
  have hOne : ¬a < 0x80 := by
    rw [UInt8.lt_iff_toNat_lt]
    exact Nat.not_lt.mpr (Nat.le_trans (by decide) hA.1)
  have hTwo : (0xC0 ≤ a && a < 0xE0) = true := by
    simpa [UInt8.le_iff_toNat_le, UInt8.lt_iff_toNat_lt] using hA
  rw [decodeFrom.eq_def]
  dsimp only
  rw [if_neg hOne, if_pos hTwo, if_pos hB]

theorem decodeFrom_three (hA : 0xE0 ≤ a.toNat ∧ a.toNat < 0xF0) (hB : isContinuation b)
    (hC : isContinuation c) :
    decodeFrom (a :: b :: c :: rest) done = decodeFrom rest
      (UInt16.ofNat ((a.toNat - 0xE0) * 4096 + (b.toNat - 0x80) * 64 + (c.toNat - 0x80)) :: done) := by
  have hOne : ¬a < 0x80 := by
    rw [UInt8.lt_iff_toNat_lt]
    exact Nat.not_lt.mpr (Nat.le_trans (by decide) hA.1)
  have hTwo : ¬(0xC0 ≤ a && a < 0xE0) = true := by
    simp [UInt8.le_iff_toNat_le, UInt8.lt_iff_toNat_lt]
    omega
  have hThree : (0xE0 ≤ a && a < 0xF0) = true := by
    simpa [UInt8.le_iff_toNat_le, UInt8.lt_iff_toNat_lt] using hA
  rw [decodeFrom.eq_def]
  dsimp only
  rw [if_neg hOne, if_neg hTwo, if_pos hThree, hB, hC]
  rfl

end Groups

theorem decodeFrom_encodeUnit (unit : UInt16) (rest : Bytes) (done : List UInt16) :
    decodeFrom (encodeUnit unit ++ rest) done = decodeFrom rest (unit :: done) := by
  have hLt : unit.toNat < 65536 := unit.toNat_lt
  have hByte (n : Nat) (h : n < 256) : (UInt8.ofNat n).toNat = n := UInt8.toNat_ofNat_of_lt' h
  have hContinuation (n : Nat) (h : n < 64) : isContinuation (UInt8.ofNat (0x80 + n)) := by
    rw [isContinuation_iff, hByte _ (by omega)]
    omega
  -- the shortest group for the unit is read back as one group of the same length
  unfold encodeUnit
  dsimp only
  split
  next hOne =>
    rw [List.singleton_append, decodeFrom_one rest done (by rw [hByte _ (by omega)]; exact hOne.2),
      hByte _ (by omega), UInt16.ofNat_toNat]
  next hOne =>
    split
    next hTwo =>
      rw [List.cons_append, List.singleton_append, decodeFrom_two rest done
        (by rw [hByte _ (by omega)]; omega) (hContinuation _ (by omega)), hByte _ (by omega),
        hByte _ (by omega)]
      have hCode : (0xC0 + unit.toNat / 64 - 0xC0) * 64 + (0x80 + unit.toNat % 64 - 0x80) =
          unit.toNat := by omega
      rw [hCode, UInt16.ofNat_toNat]
    next hTwo =>
      rw [List.cons_append, List.cons_append, List.singleton_append, decodeFrom_three rest done
        (by rw [hByte _ (by omega)]; omega) (hContinuation _ (by omega)) (hContinuation _ (by omega)),
        hByte _ (by omega), hByte _ (by omega), hByte _ (by omega)]
      have hCode : (0xE0 + unit.toNat / 4096 - 0xE0) * 4096 +
          (0x80 + unit.toNat / 64 % 64 - 0x80) * 64 + (0x80 + unit.toNat % 64 - 0x80) =
          unit.toNat := by omega
      rw [hCode, UInt16.ofNat_toNat]

theorem decode?_encodeUnits (units : List UInt16) : decode? (encodeUnits units) = some units := by
  have hFrom (done : List UInt16) :
      decodeFrom (encodeUnits units) done = some (done.reverse ++ units) := by
    induction units generalizing done with
    | nil => simp [encodeUnits, decodeFrom]
    | cons unit units ih =>
      unfold encodeUnits at ih ⊢
      rw [List.flatMap_cons, decodeFrom_encodeUnit, ih]
      simp
  exact hFrom []

theorem encodeChar_eq (c : Char) : encodeChar c = encodeUnits (Utf16.ofChar c) := by
  have hValid := Utf16.toNat_valid c
  unfold Utf16.ofChar encodeUnits
  by_cases hSmall : c.toNat < 0x10000
  · have hUnit : (UInt16.ofNat c.toNat).toNat = c.toNat := UInt16.toNat_ofNat_of_lt' hSmall
    rw [if_pos hSmall, List.flatMap_singleton]
    unfold encodeChar encodeUnit
    dsimp only
    rw [hUnit, if_pos hSmall]
  · have hHigh : (UInt16.ofNat (0xD800 + (c.toNat - 0x10000) / 1024)).toNat =
        0xD800 + (c.toNat - 0x10000) / 1024 :=
      UInt16.toNat_ofNat_of_lt' (by unfold UInt16.size; omega)
    have hLow : (UInt16.ofNat (0xDC00 + (c.toNat - 0x10000) % 1024)).toNat =
        0xDC00 + (c.toNat - 0x10000) % 1024 :=
      UInt16.toNat_ofNat_of_lt' (by unfold UInt16.size; omega)
    rw [if_neg hSmall, List.flatMap_cons, List.flatMap_singleton]
    unfold encodeChar encodeUnit
    dsimp only
    rw [hHigh, hLow, if_neg (by omega), if_neg (by omega), if_neg hSmall, if_neg (by omega),
      if_neg (by omega), if_neg (by omega), if_neg (by omega)]
    have hA : 0xE0 + (0xD800 + (c.toNat - 0x10000) / 1024) / 4096 = 0xED := by omega
    have hB : (0xD800 + (c.toNat - 0x10000) / 1024) / 64 % 64 = 0x20 + (c.toNat / 65536 - 1) := by
      omega
    have hC : (0xD800 + (c.toNat - 0x10000) / 1024) % 64 = c.toNat / 1024 % 64 := by omega
    have hD : 0xE0 + (0xDC00 + (c.toNat - 0x10000) % 1024) / 4096 = 0xED := by omega
    have hE : (0xDC00 + (c.toNat - 0x10000) % 1024) / 64 % 64 = 0x30 + c.toNat / 64 % 16 := by omega
    have hF : (0xDC00 + (c.toNat - 0x10000) % 1024) % 64 = c.toNat % 64 := by omega
    rw [hA, hB, hC, hD, hE, hF, ← Nat.add_assoc, ← Nat.add_assoc]
    rfl

theorem encodeChars_eq (chars : List Char) : encodeChars chars = encodeUnits (Utf16.encode chars) := by
  unfold encodeChars encodeUnits Utf16.encode
  rw [List.flatMap_assoc]
  exact List.flatMap_congr fun c _ => encodeChar_eq c

end ModifiedUtf8

namespace Text

/-- A text is kept as units only where no string spells them. -/
def Normal : Text → Prop
  | .unicode _ => True
  | .raw units => Utf16.decode? units = none

theorem encode_eq (text : Text) : text.encode = ModifiedUtf8.encodeUnits text.toUnits := by
  cases text with
  | unicode string => exact ModifiedUtf8.encodeChars_eq string.toList
  | raw units => rfl

theorem decode?_encode (text : Text) : decode? text.encode = some (ofUnits text.toUnits) := by
  unfold decode?
  rw [encode_eq, ModifiedUtf8.decode?_encodeUnits]
  rfl

theorem toUnits_ofUnits (units : List UInt16) : (ofUnits units).toUnits = units := by
  unfold ofUnits
  split
  next chars hChars =>
    change Utf16.encode (String.ofList chars).toList = units
    rw [String.toList_ofList]
    exact Utf16.encode_of_decode? hChars
  next => rfl

theorem Normal.ofUnits_toUnits {text : Text} (h : text.Normal) : ofUnits text.toUnits = text := by
  unfold ofUnits
  cases text with
  | unicode string =>
    rw [toUnits, Utf16.decode?_encode]
    exact congrArg Text.unicode String.ofList_toList
  | raw units => rw [toUnits, show Utf16.decode? units = none from h]

/-- A text in normal form is recovered from its bytes. -/
theorem Normal.decode?_encode {text : Text} (h : text.Normal) : decode? text.encode = some text := by
  rw [Text.decode?_encode, h.ofUnits_toUnits]

/-- Bytes that encode some text are the encoding of the text they decode to. -/
theorem encode_of_decode? {bytes : Bytes} {text other : Text} (h : decode? bytes = some text)
    (hOther : other.encode = bytes) : text.encode = bytes := by
  rw [← hOther, Text.decode?_encode] at h
  rw [← Option.some.inj h, encode_eq, toUnits_ofUnits, ← encode_eq, hOther]

end Text

end ClassRom
