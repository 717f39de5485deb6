import ClassRom.Proofs.Constant.Spelling
import ClassRom.Proofs.Table.Spacing

/-!
# Tables and their bytes

A table is spelled by its size and the spellings of its constants one after the other. The reader
accepts exactly these, and a spelling whose texts are all in the form of the encoder is the one that
is written.
-/

namespace ClassRom.Table

set_option autoImplicit false

variable {table raw : Table} {constants : List Constant} {forms : List Bytes} {input rest : Bytes}

def ofConstants (constants : List Constant) : Table := constants.foldl push empty

theorem slots_foldl_push (constants : List Constant) (table : Table) :
    (constants.foldl push table).slots.toList =
      table.slots.toList ++ constants.flatMap Constant.cells := by
  induction constants generalizing table with
  | nil => exact (List.append_nil _).symm
  | cons constant constants ih =>
    rw [List.foldl_cons, ih, slots_push, List.append_assoc, List.flatMap_cons]

theorem constants_ofConstants (constants : List Constant) :
    (ofConstants constants).constants = constants := by
  unfold Table.constants ofConstants
  rw [slots_foldl_push]
  change (constants.flatMap Constant.cells).filterMap (fun slot => slot) = constants
  induction constants with
  | nil => rfl
  | cons constant constants ih =>
    rw [List.flatMap_cons, List.filterMap_append, Constant.filterMap_cells, ih]
    rfl

theorem spaced_ofConstants (constants : List Constant) : (ofConstants constants).Spaced := by
  unfold Spaced
  rw [constants_ofConstants, ofConstants, slots_foldl_push]
  rfl

theorem Spaced.ofConstants_eq (h : table.Spaced) : ofConstants table.constants = table := by
  have hSlots : (ofConstants table.constants).slots = table.slots := by
    rw [← Array.toList_inj, spaced_ofConstants, constants_ofConstants, h]
  cases table
  exact congrArg Table.mk hSlots

/-! ### Reading -/

theorem fill_eq_ok {count : UInt16} {left : Nat} {result : Table} :
    fill count left table input = .ok (result, rest) ↔
      ∃ constants forms, List.Forall₂ Constant.SpelledBy constants forms ∧
        input = forms.flatten ++ rest ∧ result = constants.foldl push table ∧
        (constants.map Constant.width).sum = left := by
  constructor
  · intro h
    fun_induction fill count left table input with
    | case1 table input =>
      cases h
      exact ⟨[], [], .nil, rfl, rfl, rfl⟩
    | case2 => cases h
    | case3 => cases h
    | case4 table input constant rest' hRead hWide left ih =>
      obtain ⟨form, hForm, rfl⟩ := (Constant.read_reads _ _ _ _).mp hRead
      obtain ⟨constants, forms, hForms, rfl, rfl, rfl⟩ := ih h
      refine ⟨constant :: constants, form :: forms, .cons hForm hForms, ?_, rfl, ?_⟩
      · rw [List.flatten_cons, List.append_assoc]
      · rw [List.map_cons, List.sum_cons, Constant.width, if_pos hWide]
        omega
    | case5 left table input constant rest' hRead hWide ih =>
      obtain ⟨form, hForm, rfl⟩ := (Constant.read_reads _ _ _ _).mp hRead
      obtain ⟨constants, forms, hForms, rfl, rfl, rfl⟩ := ih h
      refine ⟨constant :: constants, form :: forms, .cons hForm hForms, ?_, rfl, ?_⟩
      · rw [List.flatten_cons, List.append_assoc]
      · rw [List.map_cons, List.sum_cons, Constant.width, if_neg hWide]
        omega
  · rintro ⟨constants, forms, hForms, rfl, rfl, rfl⟩
    induction hForms generalizing table with
    | nil => rfl
    | @cons constant form constants forms hForm _ ih =>
      have hRead (index : UInt16) := (Constant.read_reads index _ _ _).mpr
        ⟨form, hForm, List.append_assoc form forms.flatten rest⟩
      rw [List.map_cons, List.sum_cons, List.flatten_cons, Constant.width]
      by_cases hWide : constant.isWide
      · rw [if_pos hWide, Nat.add_comm, fill, hRead]
        dsimp only
        rw [if_pos hWide]
        exact ih
      · rw [if_neg hWide, Nat.add_comm, fill.eq_def]
        dsimp only
        rw [hRead]
        dsimp only
        rw [if_neg hWide]
        exact ih

/-- The bytes are read as the table, once its size is known. -/
def SpelledBy (table : Table) (bytes : Bytes) : Prop :=
  ∃ forms, List.Forall₂ Constant.SpelledBy table.constants forms ∧ bytes = forms.flatten

theorem readEntries_reads (count : UInt16) :
    (readEntries count).Reads fun table bytes =>
      table.Spaced ∧ table.size = count.toNat ∧ table.SpelledBy bytes := by
  intro input table rest
  unfold readEntries
  by_cases hCount : count = 0
  · rw [if_pos hCount]
    constructor
    · intro h
      cases h
    · rintro ⟨_, ⟨hSpaced, hSize, _⟩, _⟩
      rw [hSpaced.size_eq, hCount] at hSize
      change 1 + _ = 0 at hSize
      omega
  · have hPos : count.toNat ≠ 0 := fun h => hCount (UInt16.toNat_inj.mp h)
    rw [if_neg hCount, fill_eq_ok]
    constructor
    · rintro ⟨constants, forms, hForms, rfl, rfl, hSum⟩
      refine ⟨forms.flatten, ⟨spaced_ofConstants constants, ?_, forms, ?_, rfl⟩, rfl⟩
      · rw [← ofConstants, (spaced_ofConstants constants).size_eq, constants_ofConstants, hSum]
        omega
      · rw [← ofConstants, constants_ofConstants]
        exact hForms
    · rintro ⟨_, ⟨hSpaced, hSize, forms, hForms, rfl⟩, rfl⟩
      refine ⟨table.constants, forms, hForms, rfl, hSpaced.ofConstants_eq.symm, ?_⟩
      rw [hSpaced.size_eq] at hSize
      omega

/-! ### Writing -/

/-- The bytes that a table with raw references is written as. -/
def wire (table : Table) : Bytes :=
  Wire.u16 (UInt16.ofNat table.size) ++ table.constants.flatMap Constant.wire

theorem spelledBy_wire (h : ∀ constant ∈ table.constants, constant.SpelledBy constant.wire) :
    table.SpelledBy (table.constants.flatMap Constant.wire) := by
  refine ⟨table.constants.map Constant.wire, ?_, (List.flatMap_def ..)⟩
  rw [List.forall₂_map_right_iff]
  exact List.forall₂_same.mpr h

/-- The bytes of the texts among the constants that fill the slots still left. -/
def textBytesFrom : Nat → Bytes → List Bytes
  | 0, _ => []
  | left + 1, input =>
    match Constant.read 0 input with
    | .error _ => []
    | .ok (constant, rest) =>
      (Constant.textBytes? input).toList ++
        if constant.isWide then
          match left with
          | 0 => []
          | left + 1 => textBytesFrom left rest
        else textBytesFrom left rest

/-- The bytes of all texts of the table that the input starts with. -/
def textBytes (input : Bytes) : List Bytes :=
  match Reader.u16 input with
  | .ok (count, rest) => textBytesFrom (count.toNat - 1) rest
  | .error _ => []

theorem flatten_eq_wire (hForms : List.Forall₂ Constant.SpelledBy constants forms)
    (hCanonical : ∀ payload ∈ textBytesFrom (constants.map Constant.width).sum
      (forms.flatten ++ rest), ∃ text : Text, text.encode = payload) :
    forms.flatten = constants.flatMap Constant.wire ∧ ∀ constant ∈ constants, constant.Fits := by
  induction hForms with
  | nil => exact ⟨rfl, by simp⟩
  | @cons constant form constants forms hForm _ ih =>
    have hRead := (Constant.read_reads 0 _ _ _).mpr
      ⟨form, hForm, List.append_assoc form forms.flatten rest⟩
    have hTexts : textBytesFrom ((constant :: constants).map Constant.width).sum
        ((form :: forms).flatten ++ rest) =
          (Constant.textBytes? (form ++ forms.flatten ++ rest)).toList ++
            textBytesFrom (constants.map Constant.width).sum (forms.flatten ++ rest) := by
      rw [List.map_cons, List.sum_cons, List.flatten_cons, Constant.width]
      by_cases hWide : constant.isWide
      · rw [if_pos hWide, Nat.add_comm, textBytesFrom, hRead]
        dsimp only
        rw [if_pos hWide]
      · rw [if_neg hWide, Nat.add_comm, textBytesFrom.eq_def]
        dsimp only
        rw [hRead]
        dsimp only
        rw [if_neg hWide]
    rw [hTexts, List.append_assoc] at hCanonical
    obtain ⟨hWires, hFits⟩ := ih fun payload hPayload =>
      hCanonical payload (List.mem_append_right _ hPayload)
    obtain ⟨hWire, hFit⟩ := hForm.eq_wire fun payload hPayload =>
      hCanonical payload (List.mem_append_left _ (Option.mem_toList.mpr hPayload))
    refine ⟨?_, List.forall_mem_cons.mpr ⟨hFit, hFits⟩⟩
    rw [List.flatten_cons, List.flatMap_cons, hWires, ← hWire]

end ClassRom.Table
