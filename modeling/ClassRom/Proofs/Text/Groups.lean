import ClassRom.Proofs.Text.Encoding
import Mathlib.Algebra.Ring.Nat

/-!
# Groups of bytes

The decoder of texts accepts the sequences of groups and nothing else. A group has one, two or three
bytes and may be longer than its value needs. The encoder writes the shortest group for each unit,
except that NUL takes two bytes. So a text that was read and is written again takes fewer bytes
where groups were too long, and one more byte for each zero byte.
-/

namespace ClassRom

set_option autoImplicit false

namespace ModifiedUtf8

/-- A group by the bits that it carries: `0xxxxxxx`, `110xxxxx 10yyyyyy` or
`1110xxxx 10yyyyyy 10zzzzzz`. -/
inductive Group where
  | one (x : Fin 128)
  | two (x : Fin 32) (y : Fin 64)
  | three (x : Fin 16) (y z : Fin 64)

namespace Group

def bytes : Group → Bytes
  | .one x => [UInt8.ofNat x]
  | .two x y => [UInt8.ofNat (0xC0 + x), UInt8.ofNat (0x80 + y)]
  | .three x y z => [UInt8.ofNat (0xE0 + x), UInt8.ofNat (0x80 + y), UInt8.ofNat (0x80 + z)]

def value : Group → Nat
  | .one x => x
  | .two x y => x * 64 + y
  | .three x y z => x * 4096 + y * 64 + z

/-- The unit that the group is read as. -/
def unit (group : Group) : UInt16 := UInt16.ofNat group.value

/-- The number of bytes that the group is longer than the one its unit is written as. -/
def waste (group : Group) : Nat := group.bytes.length - (encodeUnit group.unit).length

theorem toNat_unit (group : Group) : group.unit.toNat = group.value := by
  apply UInt16.toNat_ofNat_of_lt'
  unfold UInt16.size value
  cases group with
  | one x => exact Nat.lt_trans x.isLt (by decide)
  | two x y => dsimp only; omega
  | three x y z => dsimp only; omega

end Group

/-! ### Reading groups -/

theorem toNat_ofNat_byte {n : Nat} (h : n < 256) : (UInt8.ofNat n).toNat = n :=
  UInt8.toNat_ofNat_of_lt' h

theorem isContinuation_ofNat (y : Fin 64) : isContinuation (UInt8.ofNat (0x80 + y)) := by
  rw [isContinuation_iff, toNat_ofNat_byte (by omega)]
  omega

theorem decodeFrom_group (group : Group) (rest : Bytes) (done : List UInt16) :
    decodeFrom (group.bytes ++ rest) done = decodeFrom rest (group.unit :: done) := by
  cases group with
  | one x =>
    have hX : (UInt8.ofNat x).toNat = x := toNat_ofNat_byte (by omega)
    change decodeFrom (UInt8.ofNat x :: rest) done = _
    rw [decodeFrom_one rest done (by omega), hX]
    rfl
  | two x y =>
    have hX : (UInt8.ofNat (0xC0 + x)).toNat = 0xC0 + x := toNat_ofNat_byte (by omega)
    have hY : (UInt8.ofNat (0x80 + y)).toNat = 0x80 + y := toNat_ofNat_byte (by omega)
    change decodeFrom (UInt8.ofNat (0xC0 + x) :: UInt8.ofNat (0x80 + y) :: rest) done = _
    rw [decodeFrom_two rest done (by omega) (isContinuation_ofNat y), hX, hY,
      Nat.add_sub_cancel_left, Nat.add_sub_cancel_left]
    rfl
  | three x y z =>
    have hX : (UInt8.ofNat (0xE0 + x)).toNat = 0xE0 + x := toNat_ofNat_byte (by omega)
    have hY : (UInt8.ofNat (0x80 + y)).toNat = 0x80 + y := toNat_ofNat_byte (by omega)
    have hZ : (UInt8.ofNat (0x80 + z)).toNat = 0x80 + z := toNat_ofNat_byte (by omega)
    change decodeFrom (UInt8.ofNat (0xE0 + x) :: UInt8.ofNat (0x80 + y) ::
      UInt8.ofNat (0x80 + z) :: rest) done = _
    rw [decodeFrom_three rest done (by omega) (isContinuation_ofNat y) (isContinuation_ofNat z), hX,
      hY, hZ, Nat.add_sub_cancel_left, Nat.add_sub_cancel_left, Nat.add_sub_cancel_left]
    rfl

theorem decode?_groups (groups : List Group) :
    decode? (groups.flatMap Group.bytes) = some (groups.map Group.unit) := by
  have hFrom (done : List UInt16) : decodeFrom (groups.flatMap Group.bytes) done =
      some (done.reverse ++ groups.map Group.unit) := by
    induction groups generalizing done with
    | nil => simp [decodeFrom]
    | cons group groups ih =>
      rw [List.flatMap_cons, decodeFrom_group, ih]
      simp
  exact hFrom []

theorem exists_eq_ofNat {byte : UInt8} {low n : Nat} (hLow : low ≤ byte.toNat)
    (hLt : byte.toNat < low + n) : ∃ x : Fin n, byte = UInt8.ofNat (low + x) := by
  refine ⟨⟨byte.toNat - low, by omega⟩, ?_⟩
  rw [Nat.add_sub_cancel' hLow, UInt8.ofNat_toNat]

theorem exists_continuation {byte : UInt8} (h : isContinuation byte) :
    ∃ y : Fin 64, byte = UInt8.ofNat (0x80 + y) := by
  rw [isContinuation_iff] at h
  exact exists_eq_ofNat h.1 h.2

theorem groups_of_decodeFrom {bytes : Bytes} {done units : List UInt16}
    (h : decodeFrom bytes done = some units) :
    ∃ groups : List Group, bytes = groups.flatMap Group.bytes := by
  fun_induction decodeFrom bytes done with
  | case1 => exact ⟨[], rfl⟩
  | case2 a rest done hA ih =>
    obtain ⟨groups, rfl⟩ := ih h
    have hLt : a.toNat < 128 := UInt8.lt_iff_toNat_lt.mp hA
    refine ⟨.one ⟨a.toNat, hLt⟩ :: groups, ?_⟩
    rw [List.flatMap_cons, Group.bytes, UInt8.ofNat_toNat, List.singleton_append]
  | case3 a done _ hA b rest hB ih =>
    obtain ⟨groups, rfl⟩ := ih h
    simp only [Bool.and_eq_true, decide_eq_true_eq, UInt8.le_iff_toNat_le,
      UInt8.lt_iff_toNat_lt] at hA
    obtain ⟨x, rfl⟩ := exists_eq_ofNat (n := 32) hA.1 hA.2
    obtain ⟨y, rfl⟩ := exists_continuation hB
    exact ⟨.two x y :: groups, rfl⟩
  | case6 a done _ _ hA b c rest hBC ih =>
    obtain ⟨groups, rfl⟩ := ih h
    simp only [Bool.and_eq_true, decide_eq_true_eq, UInt8.le_iff_toNat_le,
      UInt8.lt_iff_toNat_lt] at hA
    obtain ⟨hB, hC⟩ := Bool.and_eq_true_iff.mp hBC
    obtain ⟨x, rfl⟩ := exists_eq_ofNat (n := 16) hA.1 hA.2
    obtain ⟨y, rfl⟩ := exists_continuation hB
    obtain ⟨z, rfl⟩ := exists_continuation hC
    exact ⟨.three x y z :: groups, rfl⟩
  | case4 | case5 | case7 | case8 | case9 => cases h

/-- The decoder accepts the sequences of groups, and reads each group as its unit. -/
theorem decode?_eq_some_iff {bytes : Bytes} {units : List UInt16} :
    decode? bytes = some units ↔
      ∃ groups : List Group, bytes = groups.flatMap Group.bytes ∧
        units = groups.map Group.unit := by
  constructor
  · intro h
    obtain ⟨groups, rfl⟩ := groups_of_decodeFrom h
    rw [decode?_groups] at h
    exact ⟨groups, rfl, (Option.some.inj h).symm⟩
  · rintro ⟨groups, rfl, rfl⟩
    exact decode?_groups groups

/-! ### Writing groups again -/

theorem length_encodeUnit (unit : UInt16) :
    (encodeUnit unit).length =
      if unit.toNat ≠ 0 ∧ unit.toNat < 0x80 then 1 else if unit.toNat < 0x800 then 2 else 3 := by
  unfold encodeUnit
  dsimp only
  split
  · rfl
  · split <;> rfl

theorem ofNat_ne_zero {n : Nat} (hPos : 0 < n) (hLt : n < 256) : UInt8.ofNat n ≠ 0 := by
  intro hZero
  have hNat := congrArg UInt8.toNat hZero
  rw [toNat_ofNat_byte hLt] at hNat
  exact Nat.ne_of_gt hPos hNat

namespace Group

variable {group : Group}

/-- No byte of a group is zero, unless it is all there is. -/
theorem eq_one_zero (h : 0 ∈ group.bytes) : group = .one 0 := by
  cases group with
  | one x =>
    have hByte : 0 = UInt8.ofNat x := List.mem_singleton.mp h
    by_cases hX : (x : Nat) = 0
    · rw [show x = 0 from Fin.ext hX]
    · exact absurd hByte.symm (ofNat_ne_zero (Nat.pos_of_ne_zero hX) (by omega))
  | two x y =>
    simp only [bytes, List.mem_cons, List.not_mem_nil, or_false] at h
    rcases h with hA | hB
    · exact absurd hA.symm (ofNat_ne_zero (by omega) (by omega))
    · exact absurd hB.symm (ofNat_ne_zero (by omega) (by omega))
  | three x y z =>
    simp only [bytes, List.mem_cons, List.not_mem_nil, or_false] at h
    rcases h with hA | hB | hC
    · exact absurd hA.symm (ofNat_ne_zero (by omega) (by omega))
    · exact absurd hB.symm (ofNat_ne_zero (by omega) (by omega))
    · exact absurd hC.symm (ofNat_ne_zero (by omega) (by omega))

theorem length_encodeUnit_le (h : 0 ∉ group.bytes) :
    (encodeUnit group.unit).length ≤ group.bytes.length := by
  rw [length_encodeUnit, toNat_unit]
  cases group with
  | one x =>
    have hX : (x : Nat) ≠ 0 := by
      intro hX
      rw [bytes, hX] at h
      exact h List.mem_cons_self
    rw [value, if_pos ⟨hX, x.isLt⟩]
    exact Nat.le_refl 1
  | two x y =>
    have hValue : (x : Nat) * 64 + y < 0x800 := by omega
    rw [value, if_pos hValue]
    split
    · exact Nat.le_add_left 1 1
    · exact Nat.le_refl 2
  | three x y z =>
    split
    · exact Nat.le_add_left 1 2
    · split
      · exact Nat.le_add_left 2 1
      · exact Nat.le_refl 3

/-- Written again, a group is shorter by what it wastes, and longer if it is a zero byte. -/
theorem length_encodeUnit_unit (group : Group) :
    (encodeUnit group.unit).length + group.waste = group.bytes.length + group.bytes.count 0 := by
  by_cases hZero : 0 ∈ group.bytes
  · rw [eq_one_zero hZero]
    rfl
  · rw [List.count_eq_zero_of_not_mem hZero, waste,
      Nat.add_sub_cancel' (length_encodeUnit_le hZero)]
    rfl

end Group

theorem length_encodeUnits_groups (groups : List Group) :
    (encodeUnits (groups.map Group.unit)).length + (groups.map Group.waste).sum =
      (groups.flatMap Group.bytes).length + (groups.flatMap Group.bytes).count 0 := by
  unfold encodeUnits
  induction groups with
  | nil => rfl
  | cons group groups ih =>
    have hGroup := group.length_encodeUnit_unit
    simp only [List.map_cons, List.flatMap_cons, List.length_append, List.sum_cons,
      List.count_append]
    omega

end ModifiedUtf8

namespace Text

/-- Which bytes are read as which text. -/
theorem decode?_eq_some_iff {bytes : Bytes} {text : Text} :
    decode? bytes = some text ↔
      ∃ groups : List ModifiedUtf8.Group, bytes = groups.flatMap ModifiedUtf8.Group.bytes ∧
        text = ofUnits (groups.map ModifiedUtf8.Group.unit) := by
  unfold decode?
  rw [Option.map_eq_some_iff]
  simp only [ModifiedUtf8.decode?_eq_some_iff]
  constructor
  · rintro ⟨_, ⟨groups, rfl, rfl⟩, rfl⟩
    exact ⟨groups, rfl, rfl⟩
  · rintro ⟨groups, rfl, rfl⟩
    exact ⟨_, ⟨groups, rfl, rfl⟩, rfl⟩

/-- The length of a text that was read, when it is written again. -/
theorem length_encode_of_groups {groups : List ModifiedUtf8.Group} {text : Text}
    (h : decode? (groups.flatMap ModifiedUtf8.Group.bytes) = some text) :
    text.encode.length + (groups.map ModifiedUtf8.Group.waste).sum =
      (groups.flatMap ModifiedUtf8.Group.bytes).length +
        (groups.flatMap ModifiedUtf8.Group.bytes).count 0 := by
  unfold decode? at h
  rw [ModifiedUtf8.decode?_groups] at h
  rw [← Option.some.inj h, encode_eq, toUnits_ofUnits, ModifiedUtf8.length_encodeUnits_groups]

end Text

end ClassRom
