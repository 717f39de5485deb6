/-!
# Counters

A counter has 32 bits. Raised past its last value it goes on from zero, and lowered at zero it stays
there. How often it went past its last value is kept beside the bits: nothing is decided by it, but
the bits tell how much was counted only if this never happened.
-/

namespace ClassRom

set_option autoImplicit false

structure Counter where
  bits : UInt32
  /-- How often the counter went past its last value. -/
  wraps : Nat
  deriving DecidableEq, Repr

namespace Counter

def start (bits : UInt32) : Counter := ⟨bits, 0⟩

/-- The number that the counter shows. -/
def value (counter : Counter) : Nat := counter.bits.toNat

/-- The number that the counter would show if it did not start again. -/
def total (counter : Counter) : Nat := counter.wraps * 4294967296 + counter.value

def add (counter : Counter) (amount : UInt32) : Counter :=
  ⟨counter.bits + amount, counter.wraps + (counter.value + amount.toNat) / 4294967296⟩

/-- Takes one back; there is never less than none. -/
def drop (counter : Counter) : Counter :=
  if counter.bits = 0 then counter else { counter with bits := counter.bits - 1 }

variable {a b : Counter}

theorem value_lt (counter : Counter) : counter.value < 4294967296 := counter.bits.toNat_lt

@[simp] theorem wraps_start (bits : UInt32) : (start bits).wraps = 0 := rfl

@[simp] theorem value_start (bits : UInt32) : (start bits).value = bits.toNat := rfl

@[simp] theorem total_start (bits : UInt32) : (start bits).total = bits.toNat := by
  simp [total]

theorem wraps_eq_zero_iff (counter : Counter) :
    counter.wraps = 0 ↔ counter.total < 4294967296 := by
  have hLt := counter.value_lt
  unfold total
  omega

theorem value_eq_total (h : a.wraps = 0) : a.value = a.total := by
  simp [total, h]

@[simp] theorem total_add (counter : Counter) (amount : UInt32) :
    (counter.add amount).total = counter.total + amount.toNat := by
  simp only [total, add, value, UInt32.toNat_add]
  omega

theorem total_le_add (counter : Counter) (amount : UInt32) :
    counter.total ≤ (counter.add amount).total := by
  simp

theorem wraps_le_add (counter : Counter) (amount : UInt32) :
    counter.wraps ≤ (counter.add amount).wraps := Nat.le_add_right _ _

@[simp] theorem wraps_drop (counter : Counter) : counter.drop.wraps = counter.wraps := by
  unfold drop
  split <;> rfl

theorem value_drop (counter : Counter) : counter.drop.value = counter.value - 1 := by
  unfold drop value
  split
  next hZero => simp [hZero]
  next hPos =>
    have hOne : 1 ≤ counter.bits := UInt32.le_iff_toNat_le.mpr <| by
      have hNe : counter.bits.toNat ≠ 0 := fun hNat => hPos (UInt32.toNat_inj.mp hNat)
      exact Nat.one_le_iff_ne_zero.mpr hNe
    exact UInt32.toNat_sub_of_le _ _ hOne

/-- Taking one back takes back no more than one, and less only at zero. -/
theorem total_le_drop_add_one (counter : Counter) : counter.total ≤ counter.drop.total + 1 := by
  unfold total
  rw [value_drop, wraps_drop]
  omega

theorem total_drop_le (counter : Counter) : counter.drop.total ≤ counter.total := by
  unfold total
  rw [value_drop, wraps_drop]
  omega

theorem total_drop (h : a.wraps = 0) : a.drop.total = a.total - 1 := by
  unfold total
  rw [value_drop, wraps_drop, h]
  omega

end Counter

end ClassRom
