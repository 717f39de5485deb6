import ClassRom.Proofs.Reading

/-!
# Bytes read and written

A reader is exact when it takes off the input just the bytes that spell the value it returns, and
accepts every spelling. Exact readers compose. Output is complete when no chunk of it failed.
-/

namespace ClassRom

set_option autoImplicit false

universe u
variable {α β : Type} {ε : Type u}

namespace Reader

/-- The reader accepts exactly the spellings of values, and leaves what follows them. -/
def Reads (reader : Reader α) (Spells : α → Bytes → Prop) : Prop :=
  ∀ input value rest, reader input = .ok (value, rest) ↔
    ∃ bytes, Spells value bytes ∧ input = bytes ++ rest

theorem Reads.congr {reader : Reader α} {S T : α → Bytes → Prop} (h : reader.Reads S)
    (hST : ∀ value bytes, S value bytes ↔ T value bytes) : reader.Reads T := by
  intro input value rest
  rw [h]
  simp only [hST]

theorem reads_pure (value : α) : Reads (pure value) fun v bytes => v = value ∧ bytes = [] := by
  intro input value' rest
  rw [pure_eq_ok]
  constructor
  · rintro ⟨rfl, rfl⟩
    exact ⟨[], ⟨rfl, rfl⟩, rfl⟩
  · rintro ⟨_, ⟨rfl, rfl⟩, rfl⟩
    exact ⟨rfl, rfl⟩

theorem reads_throw (fault : FormatFault) : Reads (throw fault : Reader α) fun _ _ => False := by
  intro input value rest
  constructor
  · intro h
    cases h
  · rintro ⟨_, h, _⟩
    exact h.elim

theorem Reads.bind {reader : Reader α} {next : α → Reader β} {S : α → Bytes → Prop}
    {T : α → β → Bytes → Prop} (h : reader.Reads S) (hNext : ∀ a, (next a).Reads (T a)) :
    Reads (reader >>= next) fun value bytes =>
      ∃ a first second, S a first ∧ T a value second ∧ bytes = first ++ second := by
  intro input value rest
  rw [bind_eq_ok]
  constructor
  · rintro ⟨a, middle, hReader, hDone⟩
    obtain ⟨first, hFirst, rfl⟩ := (h input a middle).mp hReader
    obtain ⟨second, hSecond, rfl⟩ := (hNext a middle value rest).mp hDone
    exact ⟨_, ⟨a, first, second, hFirst, hSecond, rfl⟩, (List.append_assoc ..).symm⟩
  · rintro ⟨_, ⟨a, first, second, hFirst, hSecond, rfl⟩, rfl⟩
    exact ⟨a, second ++ rest, (h _ _ _).mpr ⟨first, hFirst, List.append_assoc ..⟩,
      (hNext _ _ _ _).mpr ⟨second, hSecond, rfl⟩⟩

theorem Reads.map {reader : Reader α} {S : α → Bytes → Prop} (h : reader.Reads S) (f : α → β) :
    Reads (reader >>= fun a => pure (f a)) fun value bytes => ∃ a, S a bytes ∧ value = f a := by
  refine (h.bind fun a => reads_pure (f a)).congr fun value bytes => ?_
  constructor
  · rintro ⟨a, first, second, hFirst, ⟨rfl, rfl⟩, rfl⟩
    exact ⟨a, by rw [List.append_nil]; exact hFirst, rfl⟩
  · rintro ⟨a, hBytes, rfl⟩
    exact ⟨a, bytes, [], hBytes, ⟨rfl, rfl⟩, (List.append_nil _).symm⟩

/-- A value that is spelled by its two halves. -/
theorem Reads.halves {half : Reader α} {wire : α → Bytes}
    (h : half.Reads fun a bytes => bytes = wire a) (join : α → α → β) (high low : β → α)
    (hJoin : ∀ b, join (high b) (low b) = b) (hHigh : ∀ x y, high (join x y) = x)
    (hLow : ∀ x y, low (join x y) = y) :
    Reads (half >>= fun x => half >>= fun y => pure (join x y))
      fun b bytes => bytes = wire (high b) ++ wire (low b) := by
  refine (h.bind fun x => h.map (join x)).congr fun b bytes => ?_
  constructor
  · rintro ⟨x, _, _, rfl, ⟨y, rfl, rfl⟩, rfl⟩
    rw [hHigh, hLow]
  · rintro rfl
    exact ⟨high b, _, _, rfl, ⟨low b, rfl, (hJoin b).symm⟩, rfl⟩

theorem reads_u8 : Reader.u8.Reads fun n bytes => bytes = Wire.u8 n := by
  intro input value rest
  cases input with
  | nil => simp [u8, Wire.u8]
  | cons byte input => simp [u8, Wire.u8]

theorem reads_u16 : Reader.u16.Reads fun n bytes => bytes = Wire.u16 n := by
  refine reads_u8.halves (fun x y => UInt16.ofNat (x.toNat * 256 + y.toNat))
    (fun n => UInt8.ofNat (n.toNat / 256)) (fun n => UInt8.ofNat n.toNat) ?_ ?_ ?_
  · intro n
    have hLt := n.toNat_lt
    apply UInt16.toNat_inj.mp
    rw [UInt16.toNat_ofNat', UInt8.toNat_ofNat', UInt8.toNat_ofNat']
    omega
  · intro x y
    have hX := x.toNat_lt
    have hY := y.toNat_lt
    apply UInt8.toNat_inj.mp
    rw [UInt8.toNat_ofNat', UInt16.toNat_ofNat']
    omega
  · intro x y
    have hX := x.toNat_lt
    have hY := y.toNat_lt
    apply UInt8.toNat_inj.mp
    rw [UInt8.toNat_ofNat', UInt16.toNat_ofNat']
    omega

theorem reads_u32 : Reader.u32.Reads fun n bytes => bytes = Wire.u32 n := by
  refine reads_u16.halves (fun x y => UInt32.ofNat (x.toNat * 65536 + y.toNat))
    (fun n => UInt16.ofNat (n.toNat / 65536)) (fun n => UInt16.ofNat n.toNat) ?_ ?_ ?_
  · intro n
    have hLt := n.toNat_lt
    apply UInt32.toNat_inj.mp
    rw [UInt32.toNat_ofNat', UInt16.toNat_ofNat', UInt16.toNat_ofNat']
    omega
  · intro x y
    have hX := x.toNat_lt
    have hY := y.toNat_lt
    apply UInt16.toNat_inj.mp
    rw [UInt16.toNat_ofNat', UInt32.toNat_ofNat']
    omega
  · intro x y
    have hX := x.toNat_lt
    have hY := y.toNat_lt
    apply UInt16.toNat_inj.mp
    rw [UInt16.toNat_ofNat', UInt32.toNat_ofNat']
    omega

theorem reads_u64 : Reader.u64.Reads fun n bytes => bytes = Wire.u64 n := by
  refine reads_u32.halves (fun x y => UInt64.ofNat (x.toNat * 4294967296 + y.toNat))
    (fun n => UInt32.ofNat (n.toNat / 4294967296)) (fun n => UInt32.ofNat n.toNat) ?_ ?_ ?_
  · intro n
    have hLt := n.toNat_lt
    apply UInt64.toNat_inj.mp
    rw [UInt64.toNat_ofNat', UInt32.toNat_ofNat', UInt32.toNat_ofNat']
    omega
  · intro x y
    have hX := x.toNat_lt
    have hY := y.toNat_lt
    apply UInt32.toNat_inj.mp
    rw [UInt32.toNat_ofNat', UInt64.toNat_ofNat']
    omega
  · intro x y
    have hX := x.toNat_lt
    have hY := y.toNat_lt
    apply UInt32.toNat_inj.mp
    rw [UInt32.toNat_ofNat', UInt64.toNat_ofNat']
    omega

theorem reads_take (n : Nat) :
    (Reader.take n).Reads fun chunk bytes => bytes = chunk ∧ chunk.length = n := by
  intro input chunk rest
  unfold take
  dsimp only
  constructor
  · intro h
    split at h
    next hLength =>
      cases h
      exact ⟨_, ⟨rfl, hLength⟩, (List.take_append_drop n input).symm⟩
    next => cases h
  · rintro ⟨_, ⟨rfl, rfl⟩, rfl⟩
    simp

/-- The reader accepts exactly the written forms of the values that fit, and leaves what follows
them. -/
def ReadsBack (reader : Reader α) (wire : α → Bytes) (Fits : α → Prop) : Prop :=
  ∀ input value rest, reader input = .ok (value, rest) ↔ Fits value ∧ input = wire value ++ rest

theorem u8_eq_ok {input rest : Bytes} {n : UInt8} :
    Reader.u8 input = .ok (n, rest) ↔ input = Wire.u8 n ++ rest := by
  simp [reads_u8 input n rest]

theorem u16_eq_ok {input rest : Bytes} {n : UInt16} :
    Reader.u16 input = .ok (n, rest) ↔ input = Wire.u16 n ++ rest := by
  simp [reads_u16 input n rest]

theorem u32_eq_ok {input rest : Bytes} {n : UInt32} :
    Reader.u32 input = .ok (n, rest) ↔ input = Wire.u32 n ++ rest := by
  simp [reads_u32 input n rest]

theorem take_eq_ok {n : Nat} {input chunk rest : Bytes} :
    Reader.take n input = .ok (chunk, rest) ↔ chunk.length = n ∧ input = chunk ++ rest := by
  simp [reads_take n input chunk rest]

/-- Bytes are as many as a word says just if the word counts them. -/
theorem length_eq_iff {length : UInt32} {chunk : Bytes} :
    chunk.length = length.toNat ↔
      chunk.length < 4294967296 ∧ length = UInt32.ofNat chunk.length := by
  have hLt := length.toNat_lt
  constructor
  · intro h
    exact ⟨by omega, by rw [h, UInt32.ofNat_toNat]⟩
  · rintro ⟨hFits, rfl⟩
    rw [UInt32.toNat_ofNat']
    omega

section Items

variable {item : Reader α} {wire : α → Bytes} {Fits : α → Prop}

theorem ReadsBack.manyFrom_eq_ok (h : item.ReadsBack wire Fits) {n : Nat} {done items : List α}
    {input rest : Bytes} :
    manyFrom item n done input = .ok (items, rest) ↔ ∃ more : List α, items = done.reverse ++ more ∧
      more.length = n ∧ (∀ value ∈ more, Fits value) ∧ input = more.flatMap wire ++ rest := by
  induction n generalizing done input with
  | zero =>
    rw [manyFrom, Except.ok.injEq, Prod.mk.injEq]
    constructor
    · rintro ⟨rfl, rfl⟩
      exact ⟨[], by simp⟩
    · rintro ⟨more, rfl, hLength, _, rfl⟩
      simp [List.eq_nil_of_length_eq_zero hLength]
  | succ n ih =>
    rw [manyFrom]
    constructor
    · intro hRead
      split at hRead
      next => cases hRead
      next value middle hItem =>
        obtain ⟨hFits, rfl⟩ := (h _ _ _).mp hItem
        obtain ⟨more, rfl, rfl, hMore, rfl⟩ := ih.mp hRead
        refine ⟨value :: more, by simp, by simp, ?_, by simp⟩
        exact List.forall_mem_cons.mpr ⟨hFits, hMore⟩
    · rintro ⟨more, rfl, hLength, hMore, rfl⟩
      obtain ⟨value, more, rfl⟩ := List.exists_cons_of_length_eq_add_one hLength
      obtain ⟨hFits, hMore⟩ := List.forall_mem_cons.mp hMore
      have hItem : item ((value :: more).flatMap wire ++ rest) =
          .ok (value, more.flatMap wire ++ rest) :=
        (h _ _ _).mpr ⟨hFits, by simp⟩
      rw [hItem]
      apply ih.mpr
      exact ⟨more, by simp, by simpa using hLength, hMore, rfl⟩

theorem ReadsBack.counted (h : item.ReadsBack wire Fits) :
    (Reader.counted item).ReadsBack (Wire.counted wire)
      fun items => items.length ≤ 65535 ∧ ∀ value ∈ items, Fits value := by
  intro input items rest
  unfold Reader.counted many
  simp only [bind_eq_ok, u16_eq_ok, h.manyFrom_eq_ok]
  constructor
  · rintro ⟨length, _, rfl, _, rfl, hLength, hItems, rfl⟩
    have hLt := length.toNat_lt
    refine ⟨⟨by omega, hItems⟩, ?_⟩
    rw [Wire.counted, hLength, UInt16.ofNat_toNat, List.append_assoc]
  · rintro ⟨⟨hLength, hItems⟩, rfl⟩
    have hCount : (UInt16.ofNat items.length).toNat = items.length := by
      rw [UInt16.toNat_ofNat']
      omega
    refine ⟨UInt16.ofNat items.length, items.flatMap wire ++ rest, by simp [Wire.counted], ?_⟩
    exact ⟨items, rfl, hCount.symm, hItems, rfl⟩

end Items

end Reader

namespace Output

variable {chunks first second : List (Except ε Bytes)} {bytes : Bytes}

/-- No chunk failed, and together they are the bytes. -/
def Emits (chunks : List (Except ε Bytes)) (bytes : Bytes) : Prop :=
  ∃ parts : List Bytes, chunks = parts.map Except.ok ∧ bytes = parts.flatten

theorem ofChunks_eq_iff : ofChunks chunks = ⟨bytes, none⟩ ↔ Emits chunks bytes := by
  induction chunks generalizing bytes with
  | nil =>
    constructor
    · intro h
      cases h
      exact ⟨[], rfl, rfl⟩
    · rintro ⟨parts, hParts, rfl⟩
      rw [List.map_eq_nil_iff.mp hParts.symm]
      rfl
  | cons chunk chunks ih =>
    cases chunk with
    | error fault =>
      constructor
      · intro h
        cases congrArg Output.fault h
      · rintro ⟨parts, hParts, _⟩
        cases parts <;> cases hParts
    | ok part =>
      have hCons : ofChunks (.ok part :: chunks) =
          ⟨part ++ (ofChunks chunks).bytes, (ofChunks chunks).fault⟩ := rfl
      rw [hCons]
      constructor
      · intro h
        obtain ⟨rfl, hFault⟩ := Output.mk.inj h
        obtain ⟨parts, hParts, hBytes⟩ := ih.mp
          (show ofChunks chunks = ⟨(ofChunks chunks).bytes, none⟩ by rw [← hFault])
        exact ⟨part :: parts, by rw [hParts]; rfl, by rw [hBytes]; rfl⟩
      · rintro ⟨parts, hParts, rfl⟩
        obtain ⟨head, tail, rfl, hHead, hTail⟩ := List.map_eq_cons_iff.mp hParts.symm
        cases hHead
        rw [ih.mpr ⟨tail, hTail.symm, rfl⟩]
        rfl

@[simp] theorem emits_nil : Emits ([] : List (Except ε Bytes)) bytes ↔ bytes = [] := by
  unfold Emits
  constructor
  · rintro ⟨parts, hParts, rfl⟩
    rw [List.map_eq_nil_iff.mp hParts.symm]
    rfl
  · rintro rfl
    exact ⟨[], rfl, rfl⟩

theorem emits_append :
    Emits (first ++ second) bytes ↔ ∃ x y, Emits first x ∧ Emits second y ∧ bytes = x ++ y := by
  constructor
  · rintro ⟨parts, hParts, rfl⟩
    obtain ⟨xs, ys, rfl, rfl, rfl⟩ := List.append_eq_map_iff.mp hParts
    exact ⟨_, _, ⟨xs, rfl, rfl⟩, ⟨ys, rfl, rfl⟩, List.flatten_append⟩
  · rintro ⟨_, _, ⟨xs, rfl, rfl⟩, ⟨ys, rfl, rfl⟩, rfl⟩
    exact ⟨xs ++ ys, List.map_append.symm, List.flatten_append.symm⟩

theorem emits_singleton {chunk : Except ε Bytes} : Emits [chunk] bytes ↔ chunk = .ok bytes := by
  constructor
  · rintro ⟨parts, hParts, rfl⟩
    obtain ⟨part, rfl, rfl⟩ := List.map_eq_singleton_iff.mp hParts.symm
    simp
  · rintro rfl
    exact ⟨[bytes], rfl, by simp⟩

/-- Output item by item, where it is known what each item puts out if it does not fail. -/
theorem emits_flatMap {f : α → List (Except ε Bytes)} {g : α → Bytes} {Fits : α → Prop}
    {items : List α} (h : ∀ item ∈ items, ∀ bytes, Emits (f item) bytes ↔
      Fits item ∧ bytes = g item) :
    Emits (items.flatMap f) bytes ↔ (∀ item ∈ items, Fits item) ∧ bytes = items.flatMap g := by
  induction items generalizing bytes with
  | nil => simp
  | cons item items ih =>
    have hTail (bytes : Bytes) : Emits (items.flatMap f) bytes ↔
        (∀ item ∈ items, Fits item) ∧ bytes = items.flatMap g :=
      ih fun item' hItem => h item' (List.mem_cons_of_mem item hItem)
    rw [List.flatMap_cons, List.flatMap_cons, emits_append]
    simp only [h item List.mem_cons_self, hTail, List.forall_mem_cons]
    constructor
    · rintro ⟨_, _, ⟨hItem, rfl⟩, ⟨hItems, rfl⟩, rfl⟩
      exact ⟨⟨hItem, hItems⟩, rfl⟩
    · rintro ⟨⟨hItem, hItems⟩, rfl⟩
      exact ⟨_, _, ⟨hItem, rfl⟩, ⟨hItems, rfl⟩, rfl⟩

end Output

end ClassRom
