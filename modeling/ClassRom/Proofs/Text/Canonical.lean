import ClassRom.Proofs.Text.Groups

/-!
# Canonical bytes

The first byte of a group tells its length, so bytes split into groups in one way at most. The
encoder writes each unit as one group. So a text that was read is written as the same bytes just if
every group was the one that its unit is written as: none of them is a zero byte, and none is longer
than its value needs.
-/

namespace ClassRom

set_option autoImplicit false

namespace ModifiedUtf8

theorem ofNat_byte_inj {m n : Nat} (hM : m < 256) (hN : n < 256)
    (h : UInt8.ofNat m = UInt8.ofNat n) : m = n := by
  have hNat := congrArg UInt8.toNat h
  rwa [toNat_ofNat_byte hM, toNat_ofNat_byte hN] at hNat

theorem continuation_inj {y y' : Fin 64} (h : UInt8.ofNat (0x80 + y) = UInt8.ofNat (0x80 + y')) :
    y = y' :=
  Fin.ext (Nat.add_left_cancel (ofNat_byte_inj (by omega) (by omega) h))

namespace Group

variable {group group' : Group}

/-- The group has more bytes than its value needs. NUL is written in two, which is not too long. -/
def Overlong : Group → Prop
  | .one _ => False
  | .two x y => 1 ≤ (two x y).value ∧ (two x y).value ≤ 0x7F
  | .three x y z => (three x y z).value < 0x800

instance : DecidablePred Overlong
  | .one _ => inferInstanceAs (Decidable False)
  | .two x y => inferInstanceAs (Decidable (1 ≤ (two x y).value ∧ (two x y).value ≤ 0x7F))
  | .three x y z => inferInstanceAs (Decidable ((three x y z).value < 0x800))

/-- The group that a unit is written as. -/
def ofUnit (unit : UInt16) : Group :=
  let code := unit.toNat
  if code ≠ 0 ∧ code < 0x80 then .one (Fin.ofNat 128 code)
  else if code < 0x800 then .two (Fin.ofNat 32 (code / 64)) (Fin.ofNat 64 code)
  else .three (Fin.ofNat 16 (code / 4096)) (Fin.ofNat 64 (code / 64)) (Fin.ofNat 64 code)

theorem bytes_ofUnit (unit : UInt16) : (ofUnit unit).bytes = encodeUnit unit := by
  have hLt : unit.toNat < 65536 := unit.toNat_lt
  unfold ofUnit encodeUnit
  dsimp only
  split
  next hOne =>
    rw [bytes, Fin.val_ofNat, Nat.mod_eq_of_lt hOne.2]
  next =>
    split
    next hTwo =>
      rw [bytes, Fin.val_ofNat, Fin.val_ofNat,
        Nat.mod_eq_of_lt (show unit.toNat / 64 < 32 by omega)]
    next =>
      rw [bytes, Fin.val_ofNat, Fin.val_ofNat, Fin.val_ofNat,
        Nat.mod_eq_of_lt (show unit.toNat / 4096 < 16 by omega)]

/-! ### Splitting bytes into groups -/

/-- The first byte of a group. -/
def lead : Group → Nat
  | .one x => x
  | .two x _ => 0xC0 + x
  | .three x _ _ => 0xE0 + x

theorem head?_bytes_append (group : Group) (rest : Bytes) :
    (group.bytes ++ rest).head? = some (UInt8.ofNat group.lead) := by
  cases group <;> rfl

theorem lead_lt (group : Group) : group.lead < 256 := by
  cases group with
  | one x => exact Nat.lt_trans x.isLt (by decide)
  | two x y => exact Nat.lt_trans (Nat.add_lt_add_left x.isLt 0xC0) (by decide)
  | three x y z => exact Nat.lt_trans (Nat.add_lt_add_left x.isLt 0xE0) (by decide)

/-- Groups in front of other bytes are told apart by their bytes. -/
theorem append_inj {rest rest' : Bytes} (h : group.bytes ++ rest = group'.bytes ++ rest') :
    group = group' ∧ rest = rest' := by
  -- the first byte leaves only groups of one length to compare
  have hLead : group.lead = group'.lead := by
    have hHead := congrArg List.head? h
    rw [head?_bytes_append, head?_bytes_append] at hHead
    exact ofNat_byte_inj group.lead_lt group'.lead_lt (Option.some.inj hHead)
  cases group with
  | one x =>
    cases group' with
    | one x' => exact ⟨congrArg one (Fin.ext hLead), (List.cons.inj h).2⟩
    | two | three => simp only [lead] at hLead; omega
  | two x y =>
    cases group' with
    | two x' y' =>
      have hX : x = x' := Fin.ext (Nat.add_left_cancel hLead)
      obtain ⟨hY, hRest⟩ := List.cons.inj (List.cons.inj h).2
      exact ⟨congrArg₂ two hX (continuation_inj hY), hRest⟩
    | one | three => simp only [lead] at hLead; omega
  | three x y z =>
    cases group' with
    | three x' y' z' =>
      have hX : x = x' := Fin.ext (Nat.add_left_cancel hLead)
      obtain ⟨hY, h⟩ := List.cons.inj (List.cons.inj h).2
      obtain ⟨hZ, hRest⟩ := List.cons.inj h
      rw [hX, continuation_inj hY, continuation_inj hZ]
      exact ⟨rfl, hRest⟩
    | one | two => simp only [lead] at hLead; omega

@[simp] theorem bytes_ne_nil (group : Group) : group.bytes ≠ [] := by
  cases group <;> exact List.cons_ne_nil _ _

end Group

theorem flatMap_bytes_injective {groups groups' : List Group}
    (h : groups.flatMap Group.bytes = groups'.flatMap Group.bytes) : groups = groups' := by
  induction groups generalizing groups' with
  | nil =>
    cases groups' with
    | nil => rfl
    | cons group' groups' =>
      rw [List.flatMap_nil, List.flatMap_cons] at h
      exact absurd (List.append_eq_nil_iff.mp h.symm).1 group'.bytes_ne_nil
  | cons group groups ih =>
    cases groups' with
    | nil =>
      rw [List.flatMap_nil, List.flatMap_cons] at h
      exact absurd (List.append_eq_nil_iff.mp h).1 group.bytes_ne_nil
    | cons group' groups' =>
      rw [List.flatMap_cons, List.flatMap_cons] at h
      obtain ⟨hGroup, hRest⟩ := Group.append_inj h
      rw [hGroup, ih hRest]

/-! ### Groups that are written as they were read -/

namespace Group

theorem ofUnit_unit_iff (group : Group) :
    ofUnit group.unit = group ↔ 0 ∉ group.bytes ∧ ¬group.Overlong := by
  unfold ofUnit
  dsimp only
  rw [toNat_unit]
  cases group with
  | one x =>
    by_cases hX : (x : Nat) = 0
    · have hZero : 0 ∈ (one x).bytes := by
        rw [bytes, hX]
        exact List.mem_cons_self
      rw [value, if_neg (fun hOne => hOne.1 hX), if_pos (by omega)]
      exact iff_of_false (by rintro ⟨⟩) fun h => h.1 hZero
    · have hZero : 0 ∉ (one x).bytes := by
        intro hZero
        cases eq_one_zero hZero
        exact hX rfl
      rw [value, if_pos ⟨hX, x.isLt⟩]
      exact iff_of_true (congrArg one (Fin.ext (Nat.mod_eq_of_lt x.isLt))) ⟨hZero, id⟩
  | two x y =>
    have hZero : 0 ∉ (two x y).bytes := fun hZero => by cases eq_one_zero hZero
    by_cases hShort : (two x y).value ≠ 0 ∧ (two x y).value < 0x80
    · rw [if_pos hShort]
      refine iff_of_false (by rintro ⟨⟩) fun h => h.2 ?_
      exact ⟨Nat.pos_of_ne_zero hShort.1, Nat.le_of_lt_succ hShort.2⟩
    · rw [if_neg hShort, value, if_pos (by omega)]
      have hX : Fin.ofNat 32 ((x * 64 + y : Nat) / 64) = x := Fin.ext (by rw [Fin.val_ofNat]; omega)
      have hY : Fin.ofNat 64 (x * 64 + y) = y := Fin.ext (by rw [Fin.val_ofNat]; omega)
      rw [hX, hY]
      refine iff_of_true rfl ⟨hZero, fun hLong => hShort ?_⟩
      exact ⟨Nat.ne_of_gt hLong.1, Nat.lt_succ_of_le hLong.2⟩
  | three x y z =>
    have hZero : 0 ∉ (three x y z).bytes := fun hZero => by cases eq_one_zero hZero
    by_cases hShort : (three x y z).value < 0x800
    · refine iff_of_false ?_ fun h => h.2 hShort
      split <;> rintro ⟨⟩
    · rw [if_neg (by omega), if_neg hShort, value]
      have hX : Fin.ofNat 16 ((x * 4096 + y * 64 + z : Nat) / 4096) = x :=
        Fin.ext (by rw [Fin.val_ofNat]; omega)
      have hY : Fin.ofNat 64 ((x * 4096 + y * 64 + z : Nat) / 64) = y :=
        Fin.ext (by rw [Fin.val_ofNat]; omega)
      have hZ : Fin.ofNat 64 (x * 4096 + y * 64 + z) = z := Fin.ext (by rw [Fin.val_ofNat]; omega)
      rw [hX, hY, hZ]
      exact iff_of_true rfl ⟨hZero, hShort⟩

end Group

/-- Units are written as the groups they were read from just if each of these is canonical. -/
theorem encodeUnits_groups_iff (groups : List Group) :
    encodeUnits (groups.map Group.unit) = groups.flatMap Group.bytes ↔
      0 ∉ groups.flatMap Group.bytes ∧ ∀ group ∈ groups, ¬group.Overlong := by
  have hWritten : encodeUnits (groups.map Group.unit) =
      (groups.map fun group => Group.ofUnit group.unit).flatMap Group.bytes := by
    unfold encodeUnits
    rw [List.flatMap_map, List.flatMap_map]
    exact List.flatMap_congr fun group _ => (Group.bytes_ofUnit group.unit).symm
  rw [hWritten]
  calc _ ↔ groups.map (fun group => Group.ofUnit group.unit) = groups.map id := by
        rw [List.map_id]
        exact ⟨flatMap_bytes_injective, fun h => by rw [h]⟩
    _ ↔ ∀ group ∈ groups, Group.ofUnit group.unit = group := List.map_inj_left
    _ ↔ ∀ group ∈ groups, 0 ∉ group.bytes ∧ ¬group.Overlong :=
        forall₂_congr fun group _ => group.ofUnit_unit_iff
    _ ↔ _ := by
      rw [List.mem_flatMap]
      simp only [not_exists, not_and, forall_and]

end ModifiedUtf8

namespace Text

open ModifiedUtf8

/-- Bytes are read as a text just if they are a sequence of groups. They are one in one way only,
the units of the text are the values of the groups, and the text is written as the same bytes just if
none of them is zero and no group is overlong. -/
theorem decoding_exact (bytes : Bytes) :
    ((decode? bytes).isSome ↔ ∃ groups : List Group, bytes = groups.flatMap Group.bytes) ∧
    ∀ groups : List Group, bytes = groups.flatMap Group.bytes →
      (∀ groups' : List Group, bytes = groups'.flatMap Group.bytes → groups' = groups) ∧
      ∃ text, decode? bytes = some text ∧
        text.toUnits.map UInt16.toNat = groups.map Group.value ∧
        (text.encode = bytes ↔ 0 ∉ bytes ∧ ∀ group ∈ groups, ¬group.Overlong) := by
  constructor
  · rw [Option.isSome_iff_exists]
    simp only [decode?_eq_some_iff]
    constructor
    · rintro ⟨_, groups, hBytes, _⟩
      exact ⟨groups, hBytes⟩
    · rintro ⟨groups, hBytes⟩
      exact ⟨_, groups, hBytes, rfl⟩
  · rintro groups rfl
    refine ⟨fun groups' h => (flatMap_bytes_injective h).symm, ofUnits (groups.map Group.unit),
      decode?_eq_some_iff.mpr ⟨groups, rfl, rfl⟩, ?_, ?_⟩
    · rw [toUnits_ofUnits, List.map_map]
      exact List.map_congr_left fun group _ => group.toNat_unit
    · rw [encode_eq, toUnits_ofUnits, encodeUnits_groups_iff]

/-- The canonical groups of a NUL and a surrogate pair. -/
def paired : List Group := [.two 0 0, .three 13 32 0, .three 13 48 0]

/-- The same with an overlong group for `A` behind them. -/
def overlong : List Group := paired ++ [.two 1 1]

theorem decoding_exact_paired :
    paired.flatMap Group.bytes = [0xC0, 0x80, 0xED, 0xA0, 0x80, 0xED, 0xB0, 0x80] ∧
    (∃ text, decode? (paired.flatMap Group.bytes) = some text ∧
      text.toUnits.map UInt16.toNat = [0, 0xD800, 0xDC00] ∧
      text.encode = paired.flatMap Group.bytes) ∧
    ∃ text, decode? (overlong.flatMap Group.bytes) = some text ∧
      text.toUnits.map UInt16.toNat = [0, 0xD800, 0xDC00, 0x41] ∧
      text.encode ≠ overlong.flatMap Group.bytes := by
  obtain ⟨_, text, hText, hUnits, hWritten⟩ := (decoding_exact _).2 paired rfl
  obtain ⟨_, text', hText', hUnits', hWritten'⟩ := (decoding_exact _).2 overlong rfl
  have hCanonical : text.encode = paired.flatMap Group.bytes :=
    hWritten.mpr ⟨by decide, by decide⟩
  refine ⟨rfl, ⟨text, hText, hUnits, hCanonical⟩, text', hText', hUnits', fun hSame => ?_⟩
  have hMem : Group.two 1 1 ∈ overlong := List.mem_append_right paired List.mem_cons_self
  exact (hWritten'.mp hSame).2 _ hMem (by decide)

end Text

end ClassRom
