import ClassRom.Constant.Key
import ClassRom.Proofs.Traversal

/-!
# References and keys

A constant is determined by its kind, its own data and its references, and its key by the keys of
what it refers to. So a constant keeps its key when it moves to another container, as long as each
reference moves to a constant that has the same key there.
-/

namespace ClassRom

set_option autoImplicit false

/-- The entry of a resolved reference. -/
def Ref.target? : Ref → Option EntryId
  | .entry id => some id
  | .index _ => none

namespace Constant

/-- The constant with its references replaced, in their order. -/
def withRefs : Constant → List Ref → Constant
  | .string _, [text] => .string text
  | .classRef _, [name] => .classRef name
  | .nameAndType _ _, [name, descriptor] => .nameAndType name descriptor
  | .member kind _ _, [owner, signature] => .member kind owner signature
  | constant, _ => constant

theorem mapRefs_eq {m : Type → Type} [Monad m] [LawfulMonad m] (f : RefKind → Ref → m Ref)
    (constant : Constant) :
    constant.mapRefs f =
      (constant.refs.mapM fun ref => f ref.1 ref.2) >>= fun refs =>
        pure (constant.withRefs refs) := by
  cases constant <;> simp [mapRefs, refs, withRefs]

theorem refs_withRefs {constant : Constant} {refs : List Ref}
    (h : refs.length = constant.refs.length) :
    (constant.withRefs refs).refs = (constant.refs.map Prod.fst).zip refs := by
  cases constant with
  | string _ | classRef _ =>
    obtain ⟨a, rfl⟩ := List.length_eq_one_iff.mp h
    rfl
  | nameAndType _ _ | member _ _ _ =>
    obtain ⟨a, b, rfl⟩ := List.length_eq_two.mp h
    rfl
  | utf8 _ | integer _ | float _ | long _ | double _ => rfl

theorem accepts_withRefs (kind : RefKind) (constant : Constant) (refs : List Ref) :
    kind.accepts (constant.withRefs refs) = kind.accepts constant := by
  unfold withRefs
  split <;> cases kind <;> rfl

/-- The entries that a constant refers to, in order. -/
def targets (constant : Constant) : List EntryId := constant.refs.filterMap fun ref => ref.2.target?

/-- How deep the references of a constant go. -/
def rank : Constant → Nat
  | .string _ => 1
  | .classRef _ => 1
  | .nameAndType _ _ => 1
  | .member _ _ _ => 2
  | _ => 0

theorem rank_le (constant : Constant) : constant.rank ≤ 2 := by
  cases constant <;> simp [rank]

theorem targets_withRefs {constant : Constant} {ids : List EntryId}
    (h : ids.length = constant.refs.length) :
    (constant.withRefs (ids.map .entry)).targets = ids := by
  cases constant with
  | string _ | classRef _ =>
    obtain ⟨a, rfl⟩ := List.length_eq_one_iff.mp h
    rfl
  | nameAndType _ _ | member _ _ _ =>
    obtain ⟨a, b, rfl⟩ := List.length_eq_two.mp h
    rfl
  | utf8 _ | integer _ | float _ | long _ | double _ =>
    exact (List.eq_nil_of_length_eq_zero h).symm

end Constant

namespace Source

/-- The key of a constant by rules: a reference contributes the key of the constant it leads to. -/
inductive HasKey (source : Source) : Constant → Key → Prop where
  | utf8 (text : Text) : HasKey source (.utf8 text) (.utf8 text)
  | integer (bits : UInt32) : HasKey source (.integer bits) (.integer bits)
  | float (bits : UInt32) : HasKey source (.float bits) (.float bits)
  | long (bits : UInt64) : HasKey source (.long bits) (.long bits)
  | double (bits : UInt64) : HasKey source (.double bits) (.double bits)
  | string {id : EntryId} {referred : Constant} {text : Text} :
      source.constant? id = some referred → HasKey source referred (.utf8 text) →
      HasKey source (.string (.entry id)) (.string text)
  | classRef {id : EntryId} {referred : Constant} {text : Text} :
      source.constant? id = some referred → HasKey source referred (.utf8 text) →
      HasKey source (.classRef (.entry id)) (.classRef text)
  | nameAndType {a b : EntryId} {first second : Constant} {name descriptor : Text} :
      source.constant? a = some first → HasKey source first (.utf8 name) →
      source.constant? b = some second → HasKey source second (.utf8 descriptor) →
      HasKey source (.nameAndType (.entry a) (.entry b)) (.nameAndType name descriptor)
  | member {kind : MemberKind} {a b : EntryId} {first second : Constant}
      {owner name descriptor : Text} :
      source.constant? a = some first → HasKey source first (.classRef owner) →
      source.constant? b = some second → HasKey source second (.nameAndType name descriptor) →
      HasKey source (.member kind (.entry a) (.entry b)) (.member kind owner name descriptor)

variable {source target : Source} {constant other : Constant} {key : Key} {id : EntryId}

theorem eq_entry_of_resolved {ref : Ref} (h : ref.resolved = .ok id) : ref = .entry id := by
  cases ref with
  | index i => cases h
  | entry id' => cases h; rfl

theorem textAt_eq_ok {ref : Ref} {text : Text} :
    source.textAt ref = .ok text ↔
      ∃ id, ref = .entry id ∧ source.constant? id = some (.utf8 text) := by
  unfold textAt
  rw [Traversal.bind_eq_ok]
  constructor
  · rintro ⟨id, hId, h⟩
    refine ⟨id, eq_entry_of_resolved hId, ?_⟩
    split at h
    next t hAt => rw [hAt, Traversal.pure_eq_ok.mp h]
    next => cases h
  · rintro ⟨id, rfl, h⟩
    exact ⟨id, rfl, by rw [h]; rfl⟩

theorem hasKey_of_textAt {ref : Ref} {text : Text} (h : source.textAt ref = .ok text) :
    ∃ id, ref = .entry id ∧ source.constant? id = some (.utf8 text) ∧
      source.HasKey (.utf8 text) (.utf8 text) := by
  obtain ⟨id, rfl, hAt⟩ := textAt_eq_ok.mp h
  exact ⟨id, rfl, hAt, .utf8 text⟩

theorem textAt_of_hasKey {text : Text} (hAt : source.constant? id = some constant)
    (hKey : source.HasKey constant (.utf8 text)) : source.textAt (.entry id) = .ok text := by
  cases hKey
  exact textAt_eq_ok.mpr ⟨id, rfl, hAt⟩

theorem hasKey_of_keyOf (h : source.keyOf constant = .ok key) : source.HasKey constant key := by
  cases constant with
  | utf8 text => cases h; exact .utf8 text
  | integer bits => cases h; exact .integer bits
  | float bits => cases h; exact .float bits
  | long bits => cases h; exact .long bits
  | double bits => cases h; exact .double bits
  | string ref =>
    obtain ⟨text, hText, hDone⟩ := Traversal.bind_eq_ok.mp h
    obtain ⟨id, rfl, hAt, hKey⟩ := hasKey_of_textAt hText
    cases hDone
    exact .string hAt hKey
  | classRef ref =>
    obtain ⟨text, hText, hDone⟩ := Traversal.bind_eq_ok.mp h
    obtain ⟨id, rfl, hAt, hKey⟩ := hasKey_of_textAt hText
    cases hDone
    exact .classRef hAt hKey
  | nameAndType first second =>
    obtain ⟨name, hName, hRest⟩ := Traversal.bind_eq_ok.mp h
    obtain ⟨descriptor, hDescriptor, hDone⟩ := Traversal.bind_eq_ok.mp hRest
    obtain ⟨a, rfl, hA, hKeyA⟩ := hasKey_of_textAt hName
    obtain ⟨b, rfl, hB, hKeyB⟩ := hasKey_of_textAt hDescriptor
    cases hDone
    exact .nameAndType hA hKeyA hB hKeyB
  | member kind first second =>
    obtain ⟨a, hFirst, hOwner⟩ := Traversal.bind_eq_ok.mp h
    obtain rfl := eq_entry_of_resolved hFirst
    split at hOwner
    next ownerName hA =>
      obtain ⟨owner, hOwnerText, hRest⟩ := Traversal.bind_eq_ok.mp hOwner
      obtain ⟨b, hSecond, hSignature⟩ := Traversal.bind_eq_ok.mp hRest
      obtain rfl := eq_entry_of_resolved hSecond
      split at hSignature
      next nameRef descriptorRef hB =>
        obtain ⟨name, hName, hRest⟩ := Traversal.bind_eq_ok.mp hSignature
        obtain ⟨descriptor, hDescriptor, hDone⟩ := Traversal.bind_eq_ok.mp hRest
        obtain ⟨c, rfl, hC, hKeyC⟩ := hasKey_of_textAt hOwnerText
        obtain ⟨n, rfl, hN, hKeyN⟩ := hasKey_of_textAt hName
        obtain ⟨d, rfl, hD, hKeyD⟩ := hasKey_of_textAt hDescriptor
        cases hDone
        exact .member hA (.classRef hC hKeyC) hB (.nameAndType hN hKeyN hD hKeyD)
      next => cases hSignature
    next => cases hOwner

theorem keyOf_of_hasKey (h : source.HasKey constant key) : source.keyOf constant = .ok key := by
  cases h with
  | utf8 _ | integer _ | float _ | long _ | double _ => rfl
  | string hAt hKey => simp only [keyOf, textAt_of_hasKey hAt hKey]; rfl
  | classRef hAt hKey => simp only [keyOf, textAt_of_hasKey hAt hKey]; rfl
  | nameAndType hA hKeyA hB hKeyB =>
    simp only [keyOf, textAt_of_hasKey hA hKeyA, textAt_of_hasKey hB hKeyB]; rfl
  | @member kind a b _ _ _ _ _ hA hKeyA hB hKeyB =>
    cases hKeyA with
    | classRef hC hKeyC =>
      cases hKeyB with
      | nameAndType hN hKeyN hD hKeyD =>
        have hOwner := textAt_of_hasKey hC hKeyC
        have hName := textAt_of_hasKey hN hKeyN
        have hDescriptor := textAt_of_hasKey hD hKeyD
        simp only [keyOf, Ref.resolved, bind, Except.bind, hA, hB, hOwner, hName, hDescriptor]
        rfl

theorem keyOf_eq_ok : source.keyOf constant = .ok key ↔ source.HasKey constant key :=
  ⟨hasKey_of_keyOf, keyOf_of_hasKey⟩

theorem toOption_keyOf_eq_some :
    (source.keyOf constant).toOption = some key ↔ source.HasKey constant key := by
  rw [← keyOf_eq_ok]
  cases source.keyOf constant <;> simp [Except.toOption]

/-- The target has all constants of the source, each under the same number. -/
def Within (source target : Source) : Prop :=
  ∀ id constant, source.constant? id = some constant → target.constant? id = some constant

namespace HasKey

theorem unique {key' : Key} (h : source.HasKey constant key) (h' : source.HasKey constant key') :
    key = key' :=
  Except.ok.inj ((keyOf_of_hasKey h).symm.trans (keyOf_of_hasKey h'))

theorem mono (hSub : source.Within target) (h : source.HasKey constant key) :
    target.HasKey constant key := by
  induction h with
  | utf8 text => exact .utf8 text
  | integer bits => exact .integer bits
  | float bits => exact .float bits
  | long bits => exact .long bits
  | double bits => exact .double bits
  | string hAt _ ih => exact .string (hSub _ _ hAt) ih
  | classRef hAt _ ih => exact .classRef (hSub _ _ hAt) ih
  | nameAndType hA _ hB _ ihA ihB => exact .nameAndType (hSub _ _ hA) ihA (hSub _ _ hB) ihB
  | member hA _ hB _ ihA ihB => exact .member (hSub _ _ hA) ihA (hSub _ _ hB) ihB

end HasKey

/-- Two entries of two containers that stand for one constant. -/
def SameKey (source target : Source) (a b : EntryId) : Prop :=
  ∃ constant other key, source.constant? a = some constant ∧ source.HasKey constant key ∧
    target.constant? b = some other ∧ target.HasKey other key

theorem SameKey.hasKey {a b : EntryId} (h : SameKey source target a b)
    (hAt : source.constant? a = some constant) (hKey : source.HasKey constant key) :
    ∃ other, target.constant? b = some other ∧ target.HasKey other key := by
  obtain ⟨c, other, key', hC, hKeyC, hOther, hKeyOther⟩ := h
  obtain rfl : c = constant := Option.some.inj (hC.symm.trans hAt)
  obtain rfl := hKeyC.unique hKey
  exact ⟨other, hOther, hKeyOther⟩

/-- What a reference becomes when its constant moves to another container. -/
def Moved (source target : Source) (ref : RefKind × Ref) (moved : Ref) : Prop :=
  ∃ a b, ref.2 = .entry a ∧ moved = .entry b ∧ SameKey source target a b

theorem Moved.mono {larger : Source} {ref : RefKind × Ref} {moved : Ref}
    (hSub : target.Within larger) (h : Moved source target ref moved) :
    Moved source larger ref moved := by
  obtain ⟨a, b, hA, hB, constant, other, key, hConstant, hKey, hOther, hKeyOther⟩ := h
  exact ⟨a, b, hA, hB, constant, other, key, hConstant, hKey, hSub b other hOther,
    hKeyOther.mono hSub⟩

theorem moved_cons {kind : RefKind} {a : EntryId} {rest : List (RefKind × Ref)} {refs : List Ref}
    (h : List.Forall₂ (Moved source target) ((kind, .entry a) :: rest) refs)
    (hAt : source.constant? a = some constant) (hKey : source.HasKey constant key) :
    ∃ b other tail, refs = .entry b :: tail ∧ target.constant? b = some other ∧
      target.HasKey other key ∧ List.Forall₂ (Moved source target) rest tail := by
  obtain ⟨_, tail, ⟨a', b, hA, rfl, hSame⟩, hTail, rfl⟩ := List.forall₂_cons_left_iff.mp h
  cases hA
  obtain ⟨other, hOther, hKeyOther⟩ := hSame.hasKey hAt hKey
  exact ⟨b, other, tail, rfl, hOther, hKeyOther, hTail⟩

theorem HasKey.moved {refs : List Ref} (h : source.HasKey constant key)
    (hRefs : List.Forall₂ (Moved source target) constant.refs refs) :
    target.HasKey (constant.withRefs refs) key := by
  cases h with
  | utf8 text => exact .utf8 text
  | integer bits => exact .integer bits
  | float bits => exact .float bits
  | long bits => exact .long bits
  | double bits => exact .double bits
  | string hAt hKey =>
    obtain ⟨b, other, _, rfl, hOther, hKeyOther, hNil⟩ := moved_cons hRefs hAt hKey
    cases hNil
    exact .string hOther hKeyOther
  | classRef hAt hKey =>
    obtain ⟨b, other, _, rfl, hOther, hKeyOther, hNil⟩ := moved_cons hRefs hAt hKey
    cases hNil
    exact .classRef hOther hKeyOther
  | nameAndType hAtA hKeyA hAtB hKeyB =>
    obtain ⟨a', first, _, rfl, hFirst, hKeyFirst, hRest⟩ := moved_cons hRefs hAtA hKeyA
    obtain ⟨b', second, _, rfl, hSecond, hKeySecond, hNil⟩ := moved_cons hRest hAtB hKeyB
    cases hNil
    exact .nameAndType hFirst hKeyFirst hSecond hKeySecond
  | member hAtA hKeyA hAtB hKeyB =>
    obtain ⟨a', first, _, rfl, hFirst, hKeyFirst, hRest⟩ := moved_cons hRefs hAtA hKeyA
    obtain ⟨b', second, _, rfl, hSecond, hKeySecond, hNil⟩ := moved_cons hRest hAtB hKeyB
    cases hNil
    exact .member hFirst hKeyFirst hSecond hKeySecond

/-- Every reference of the constant leads to a constant of the kind it asks for. -/
def Closed (source : Source) (constant : Constant) : Prop :=
  ∀ ref ∈ constant.refs, ∃ id referred, ref.2 = .entry id ∧
    source.constant? id = some referred ∧ ref.1.accepts referred

def AllClosed (source : Source) : Prop :=
  ∀ id constant, source.constant? id = some constant → source.Closed constant

/-- What a constant with a key refers to is of the right kind, has a key as well, and a lower rank. -/
theorem HasKey.exists_of_mem_refs {ref : RefKind × Ref} (h : source.HasKey constant key)
    (hRef : ref ∈ constant.refs) :
    ∃ id referred key', ref.2 = .entry id ∧ source.constant? id = some referred ∧
      ref.1.accepts referred ∧ source.HasKey referred key' ∧ referred.rank < constant.rank := by
  cases h with
  | utf8 _ | integer _ | float _ | long _ | double _ => cases hRef
  | string hAt hKey =>
    rw [List.mem_singleton.mp hRef]
    exact ⟨_, _, _, rfl, hAt, by cases hKey; rfl, hKey, by cases hKey; exact Nat.zero_lt_one⟩
  | classRef hAt hKey =>
    rw [List.mem_singleton.mp hRef]
    exact ⟨_, _, _, rfl, hAt, by cases hKey; rfl, hKey, by cases hKey; exact Nat.zero_lt_one⟩
  | nameAndType hA hKeyA hB hKeyB =>
    rcases List.mem_cons.mp hRef with rfl | hLast
    · exact ⟨_, _, _, rfl, hA, by cases hKeyA; rfl, hKeyA, by cases hKeyA; exact Nat.zero_lt_one⟩
    · rw [List.mem_singleton.mp hLast]
      exact ⟨_, _, _, rfl, hB, by cases hKeyB; rfl, hKeyB, by cases hKeyB; exact Nat.zero_lt_one⟩
  | member hA hKeyA hB hKeyB =>
    rcases List.mem_cons.mp hRef with rfl | hLast
    · exact ⟨_, _, _, rfl, hA, by cases hKeyA; rfl, hKeyA, by cases hKeyA; exact Nat.one_lt_two⟩
    · rw [List.mem_singleton.mp hLast]
      exact ⟨_, _, _, rfl, hB, by cases hKeyB; rfl, hKeyB, by cases hKeyB; exact Nat.one_lt_two⟩

theorem HasKey.closed (h : source.HasKey constant key) : source.Closed constant := by
  intro ref hRef
  obtain ⟨id, referred, _, hEntry, hAt, hAccepts, _⟩ := h.exists_of_mem_refs hRef
  exact ⟨id, referred, hEntry, hAt, hAccepts⟩

theorem HasKey.exists_of_mem_targets (h : source.HasKey constant key)
    (hId : id ∈ constant.targets) :
    ∃ referred key', source.constant? id = some referred ∧ source.HasKey referred key' ∧
      referred.rank < constant.rank := by
  obtain ⟨ref, hRef, hTarget⟩ := List.mem_filterMap.mp hId
  obtain ⟨id', referred, key', hEntry, hAt, _, hKey, hLt⟩ := h.exists_of_mem_refs hRef
  rw [hEntry] at hTarget
  cases hTarget
  exact ⟨referred, key', hAt, hKey, hLt⟩

/-- One entry leads to another through references. -/
inductive Reaches (source : Source) : EntryId → EntryId → Prop where
  | refl (id : EntryId) : Reaches source id id
  | step {a b c : EntryId} {constant : Constant} : source.constant? a = some constant →
      b ∈ constant.targets → Reaches source b c → Reaches source a c

theorem Reaches.rank_le {a b : EntryId} {referred : Constant} (h : source.Reaches a b)
    (hA : source.constant? a = some constant) (hKey : source.HasKey constant key)
    (hB : source.constant? b = some referred) : referred.rank ≤ constant.rank := by
  induction h generalizing constant key with
  | refl id =>
    obtain rfl : constant = referred := Option.some.inj (hA.symm.trans hB)
    exact Nat.le_refl _
  | step hAt hTarget _ ih =>
    obtain rfl := Option.some.inj (hAt.symm.trans hA)
    obtain ⟨middle, key', hMiddle, hKey', hLt⟩ := hKey.exists_of_mem_targets hTarget
    exact Nat.le_trans (ih hMiddle hKey' hB) (Nat.le_of_lt hLt)

theorem HasKey.rank_eq (h : source.HasKey constant key) (h' : target.HasKey other key) :
    constant.rank = other.rank := by
  cases h <;> cases h' <;> rfl

theorem Closed.mono (hSub : source.Within target) (h : source.Closed constant) :
    target.Closed constant := by
  intro ref hRef
  obtain ⟨id, referred, hId, hReferred, hAccepts⟩ := h ref hRef
  exact ⟨id, referred, hId, hSub id referred hReferred, hAccepts⟩

theorem Closed.text_of_mem {ref : Ref} (h : source.Closed constant)
    (hRef : (RefKind.utf8, ref) ∈ constant.refs) :
    ∃ id text, ref = .entry id ∧ source.constant? id = some (.utf8 text) := by
  obtain ⟨id, referred, hId, hReferred, hAccepts⟩ := h _ hRef
  cases referred with
  | utf8 text => exact ⟨id, text, hId, hReferred⟩
  | _ => cases hAccepts

theorem Closed.hasKey_classRef {ref : Ref} (h : source.Closed (.classRef ref)) :
    ∃ text, source.HasKey (.classRef ref) (.classRef text) := by
  obtain ⟨id, text, rfl, hAt⟩ := h.text_of_mem List.mem_cons_self
  exact ⟨text, .classRef hAt (.utf8 text)⟩

theorem Closed.hasKey_nameAndType {first second : Ref}
    (h : source.Closed (.nameAndType first second)) :
    ∃ name descriptor,
      source.HasKey (.nameAndType first second) (.nameAndType name descriptor) := by
  obtain ⟨a, name, rfl, hA⟩ := h.text_of_mem List.mem_cons_self
  obtain ⟨b, descriptor, rfl, hB⟩ := h.text_of_mem (List.mem_cons_of_mem _ List.mem_cons_self)
  exact ⟨name, descriptor, .nameAndType hA (.utf8 name) hB (.utf8 descriptor)⟩

/-- In a closed container every closed constant has a key. -/
theorem Closed.exists_hasKey (hAll : source.AllClosed) (h : source.Closed constant) :
    ∃ key, source.HasKey constant key := by
  cases constant with
  | utf8 text => exact ⟨_, .utf8 text⟩
  | integer bits => exact ⟨_, .integer bits⟩
  | float bits => exact ⟨_, .float bits⟩
  | long bits => exact ⟨_, .long bits⟩
  | double bits => exact ⟨_, .double bits⟩
  | string ref =>
    obtain ⟨id, text, rfl, hAt⟩ := h.text_of_mem List.mem_cons_self
    exact ⟨_, .string hAt (.utf8 text)⟩
  | classRef ref =>
    obtain ⟨text, hKey⟩ := h.hasKey_classRef
    exact ⟨_, hKey⟩
  | nameAndType first second =>
    obtain ⟨name, descriptor, hKey⟩ := h.hasKey_nameAndType
    exact ⟨_, hKey⟩
  | member kind owner signature =>
    obtain ⟨a, first, rfl, hA, hAcceptsA⟩ := h (.classRef, owner) List.mem_cons_self
    obtain ⟨b, second, rfl, hB, hAcceptsB⟩ :=
      h (.nameAndType, signature) (List.mem_cons_of_mem _ List.mem_cons_self)
    cases first with
    | classRef ref =>
      cases second with
      | nameAndType n d =>
        obtain ⟨text, hKeyA⟩ := (hAll a _ hA).hasKey_classRef
        obtain ⟨name, descriptor, hKeyB⟩ := (hAll b _ hB).hasKey_nameAndType
        exact ⟨_, .member hA hKeyA hB hKeyB⟩
      | _ => cases hAcceptsB
    | _ => cases hAcceptsA

/-- Constants of a closed container have no other keys in a container that has more constants. -/
theorem Closed.hasKey_iff (hAll : source.AllClosed) (hSub : source.Within target)
    (h : source.Closed constant) : target.HasKey constant key ↔ source.HasKey constant key := by
  refine ⟨fun hKey => ?_, HasKey.mono hSub⟩
  obtain ⟨key', hKey'⟩ := h.exists_hasKey hAll
  rwa [hKey.unique (hKey'.mono hSub)]

theorem hasKey_congr (h : target.constant? = source.constant?) :
    target.HasKey constant key ↔ source.HasKey constant key :=
  ⟨HasKey.mono fun id constant hAt => by rw [← h]; exact hAt,
    HasKey.mono fun id constant hAt => by rw [h]; exact hAt⟩

theorem closed_congr (h : target.constant? = source.constant?) :
    target.Closed constant ↔ source.Closed constant :=
  ⟨Closed.mono fun id constant hAt => by rw [← h]; exact hAt,
    Closed.mono fun id constant hAt => by rw [h]; exact hAt⟩

end Source

end ClassRom
