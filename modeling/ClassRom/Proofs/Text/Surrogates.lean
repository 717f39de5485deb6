import ClassRom.Proofs.Text.Encoding

/-!
# Unpaired surrogates

A surrogate is paired when its other half stands beside it, and units spell a string just if all
their surrogates are paired. So the decoder keeps a text as units only where it has to, every text
comes back from its bytes, and decoded texts are equal just if their units are.
-/

namespace ClassRom

set_option autoImplicit false

namespace Utf16

/-- The unit between the others is a high surrogate that no low one follows, or a low one that no
high one precedes. -/
def Unpaired (front : List UInt16) (unit : UInt16) (back : List UInt16) : Prop :=
  isHigh unit ∧ (∀ next ∈ back.head?, ¬isLow next) ∨
    isLow unit ∧ ∀ last ∈ front.getLast?, ¬isHigh last

def HasUnpaired (units : List UInt16) : Prop :=
  ∃ front unit back, units = front ++ unit :: back ∧ Unpaired front unit back

section Unpaired

variable {unit next : UInt16} {rest before front back : List UInt16}

theorem not_isLow_of_isHigh (h : isHigh unit) : ¬isLow unit := by
  rw [isHigh_iff] at h
  rw [isLow_iff]
  omega

theorem hasUnpaired_low (hLow : isLow unit) : HasUnpaired (unit :: rest) :=
  ⟨[], unit, rest, rfl, .inr ⟨hLow, fun _ hNone => by cases hNone⟩⟩

theorem hasUnpaired_high (hHigh : isHigh unit) (hNext : ∀ next ∈ rest.head?, ¬isLow next) :
    HasUnpaired (unit :: rest) :=
  ⟨[], unit, rest, rfl, .inl ⟨hHigh, hNext⟩⟩

/-- Units that do not end in a high surrogate do not matter to what comes after them. -/
theorem unpaired_append (hBefore : ∀ last ∈ before.getLast?, ¬isHigh last) :
    Unpaired (before ++ front) unit back ↔ Unpaired front unit back := by
  refine or_congr_right (and_congr_right fun _ => ?_)
  rw [List.getLast?_append]
  cases front.getLast? with
  | none => exact iff_of_true hBefore fun _ hNone => by cases hNone
  | some last => exact .rfl

theorem HasUnpaired.append (hBefore : ∀ last ∈ before.getLast?, ¬isHigh last)
    (h : HasUnpaired rest) : HasUnpaired (before ++ rest) := by
  obtain ⟨front, unit, back, rfl, hUnpaired⟩ := h
  exact ⟨before ++ front, unit, back, (List.append_assoc ..).symm,
    (unpaired_append hBefore).mpr hUnpaired⟩

theorem hasUnpaired_plain (hHigh : ¬isHigh unit) (hLow : ¬isLow unit) :
    HasUnpaired (unit :: rest) ↔ HasUnpaired rest := by
  have hBefore : ∀ last ∈ [unit].getLast?, ¬isHigh last := by simpa using hHigh
  constructor
  · rintro ⟨front, found, back, hUnits, hFound⟩
    match front with
    | [] =>
      cases hUnits
      rcases hFound with ⟨hHigh', _⟩ | ⟨hLow', _⟩
      · exact absurd hHigh' hHigh
      · exact absurd hLow' hLow
    | first :: front =>
      cases hUnits
      exact ⟨front, found, back, rfl, (unpaired_append hBefore).mp hFound⟩
  · intro h
    exact h.append hBefore

theorem hasUnpaired_pair (hHigh : isHigh unit) (hLow : isLow next) :
    HasUnpaired (unit :: next :: rest) ↔ HasUnpaired rest := by
  have hNotHigh : ¬isHigh next := fun hHigh' => not_isLow_of_isHigh hHigh' hLow
  have hBefore : ∀ last ∈ [unit, next].getLast?, ¬isHigh last := by simpa using hNotHigh
  constructor
  · rintro ⟨front, found, back, hUnits, hFound⟩
    match front with
    | [] =>
      cases hUnits
      rcases hFound with ⟨_, hNext⟩ | ⟨hLow', _⟩
      · exact absurd hLow (hNext next rfl)
      · exact absurd hLow' (not_isLow_of_isHigh hHigh)
    | [first] =>
      cases hUnits
      rcases hFound with ⟨hHigh', _⟩ | ⟨_, hLast⟩
      · exact absurd hHigh' hNotHigh
      · exact absurd hHigh (hLast unit rfl)
    | first :: second :: front =>
      cases hUnits
      exact ⟨front, found, back, rfl, (unpaired_append hBefore).mp hFound⟩
  · intro h
    exact h.append hBefore

end Unpaired

/-- The gaps among the scalar values are the unpaired surrogates. -/
theorem none_mem_scalars_iff (units : List UInt16) : none ∈ scalars units ↔ HasUnpaired units := by
  match units with
  | [] =>
    refine iff_of_false (fun hNone => by cases hNone) ?_
    rintro ⟨front, unit, back, hUnits, _⟩
    cases front <;> cases hUnits
  | unit :: rest =>
    by_cases hLow : isLow unit
    · rw [scalars_low rest hLow]
      exact iff_of_true List.mem_cons_self (hasUnpaired_low hLow)
    by_cases hHigh : isHigh unit
    · match rest with
      | [] =>
        rw [scalars_high_last hHigh]
        exact iff_of_true List.mem_cons_self (hasUnpaired_high hHigh fun _ hNone => by cases hNone)
      | next :: rest =>
        by_cases hNext : isLow next
        · rw [scalars_pair rest hHigh hNext, hasUnpaired_pair hHigh hNext,
            ← none_mem_scalars_iff rest]
          simp
        · rw [scalars_high rest hHigh hNext]
          refine iff_of_true List.mem_cons_self (hasUnpaired_high hHigh ?_)
          intro next' hMem
          cases hMem
          exact hNext
    · rw [scalars_plain rest hHigh hLow, hasUnpaired_plain hHigh hLow, ← none_mem_scalars_iff rest]
      simp

/-- Units spell a string unless one of their surrogates is unpaired. -/
theorem decode?_eq_none_iff {units : List UInt16} : decode? units = none ↔ HasUnpaired units := by
  rw [← none_mem_scalars_iff]
  unfold decode?
  induction scalars units with
  | nil => simp
  | cons scalar scalars ih =>
    cases scalar with
    | none => simp
    | some c =>
      have hCons : (some c :: scalars).mapM id = (scalars.mapM id).map (c :: ·) := by
        rw [List.mapM_cons]
        cases scalars.mapM id <;> rfl
      rw [hCons, Option.map_eq_none_iff, ih]
      simp

end Utf16

namespace ModifiedUtf8

theorem mem_encodeUnit {unit : UInt16} {byte : UInt8} (h : byte ∈ encodeUnit unit) :
    0 < byte.toNat ∧ byte.toNat < 0xF0 := by
  have hLt : unit.toNat < 65536 := unit.toNat_lt
  have hByte (n : Nat) (hn : 0 < n ∧ n < 0xF0) (hEq : byte = UInt8.ofNat n) :
      0 < byte.toNat ∧ byte.toNat < 0xF0 := by
    rw [hEq, UInt8.toNat_ofNat_of_lt' (by unfold UInt8.size; omega)]
    exact hn
  unfold encodeUnit at h
  dsimp only at h
  split at h
  next hOne => exact hByte _ (by omega) (List.mem_singleton.mp h)
  next =>
    split at h
    next hTwo =>
      rcases List.mem_cons.mp h with hA | h
      · exact hByte _ (by omega) hA
      · exact hByte _ (by omega) (List.mem_singleton.mp h)
    next =>
      rcases List.mem_cons.mp h with hA | h
      · exact hByte _ (by omega) hA
      rcases List.mem_cons.mp h with hB | h
      · exact hByte _ (by omega) hB
      · exact hByte _ (by omega) (List.mem_singleton.mp h)

end ModifiedUtf8

namespace Text

theorem mem_encode {text : Text} {byte : UInt8} (h : byte ∈ text.encode) :
    byte ≠ 0 ∧ byte < 0xF0 := by
  rw [encode_eq] at h
  obtain ⟨unit, _, hByte⟩ := List.mem_flatMap.mp h
  obtain ⟨hPos, hLt⟩ := ModifiedUtf8.mem_encodeUnit hByte
  refine ⟨?_, UInt8.lt_iff_toNat_lt.mpr hLt⟩
  rintro rfl
  exact Nat.lt_irrefl 0 hPos

theorem normal_raw_iff {units : List UInt16} : (raw units).Normal ↔ Utf16.HasUnpaired units :=
  Utf16.decode?_eq_none_iff

theorem normal_ofUnits (units : List UInt16) : (ofUnits units).Normal := by
  unfold ofUnits
  split
  next => trivial
  next hNone => exact hNone

theorem normal_of_decode? {bytes : Bytes} {text : Text} (h : decode? bytes = some text) :
    text.Normal := by
  obtain ⟨units, _, rfl⟩ := Option.map_eq_some_iff.mp h
  exact normal_ofUnits units

theorem Normal.toUnits_inj {text text' : Text} (h : text.Normal) (h' : text'.Normal) :
    text = text' ↔ text.toUnits = text'.toUnits := by
  constructor
  · intro hEq
    rw [hEq]
  · intro hUnits
    rw [← h.ofUnits_toUnits, hUnits, h'.ofUnits_toUnits]

/-- Strings and units with unpaired surrogates come back from their bytes. Nothing else is decoded
to units, so decoded texts are equal just if their units are. No byte of an encoding is zero, and
none begins a group of four. -/
theorem encoding_round_trip :
    (∀ string : String,
      decode? (ModifiedUtf8.encodeChars string.toList) = some (.unicode string)) ∧
    (∀ units, Utf16.HasUnpaired units → decode? (raw units).encode = some (.raw units)) ∧
    (∀ bytes units, decode? bytes = some (.raw units) → Utf16.HasUnpaired units) ∧
    (∀ bytes bytes' text text', decode? bytes = some text → decode? bytes' = some text' →
      (text = text' ↔ text.toUnits = text'.toUnits)) ∧
    ∀ text : Text, ∀ byte ∈ text.encode, byte ≠ 0 ∧ byte < 0xF0 := by
  refine ⟨?_, ?_, ?_, ?_, fun text byte => mem_encode⟩
  · intro string
    have hNormal : (unicode string).Normal := trivial
    exact hNormal.decode?_encode
  · intro units hUnpaired
    exact (normal_raw_iff.mpr hUnpaired).decode?_encode
  · intro bytes units hDecode
    exact normal_raw_iff.mp (normal_of_decode? hDecode)
  · intro bytes bytes' text text' hDecode hDecode'
    exact (normal_of_decode? hDecode).toUnits_inj (normal_of_decode? hDecode')

/-- Two surrogates in the wrong order behind a NUL. -/
def swapped : List UInt16 := [0, 0xDC00, 0xD800]

theorem encoding_round_trip_swapped :
    decode? (ModifiedUtf8.encodeChars "a\x00😀".toList) = some (.unicode "a\x00😀") ∧
      decode? [0, 0xED, 0xB0, 0x80, 0xED, 0xA0, 0x80] = some (.raw swapped) ∧
      Utf16.HasUnpaired swapped ∧ decode? (raw swapped).encode = some (.raw swapped) ∧
      (raw swapped = .unicode "a\x00😀" ↔
        (raw swapped).toUnits = (unicode "a\x00😀").toUnits) ∧
      0 ∉ (raw swapped).encode := by
  obtain ⟨hString, hRaw, hUnpaired, hEqual, hBytes⟩ := encoding_round_trip
  -- a zero byte is read like the two bytes that NUL is written as
  have hDecode : decode? [0, 0xED, 0xB0, 0x80, 0xED, 0xA0, 0x80] = some (.raw swapped) := by
    decide +kernel
  have hSwapped := hUnpaired _ _ hDecode
  exact ⟨hString _, hDecode, hSwapped, hRaw _ hSwapped, hEqual _ _ _ _ hDecode (hString _),
    fun hZero => (hBytes _ 0 hZero).1 rfl⟩

end Text

end ClassRom
