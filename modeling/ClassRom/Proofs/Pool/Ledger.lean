import ClassRom.Pool.Layout
import ClassRom.Proofs.Pool.Invariant

/-!
# The ledger of uses

The uses of an entry are the references that entries of the arena hold to it, and what is held from
outside. The holders from outside are kept as a list of entries, one item for each use. Adding a
constant makes its caller a holder; the references of a new entry take over from the holders of what
it refers to.

Adding uses is never lost on the total of a counter. Taking a use back is, once the counter has
started again and stands at zero, so accounts are kept of counters that never did.
-/

namespace ClassRom.Pool

set_option autoImplicit false

variable {pool : Pool} {id other : EntryId} {entry : Entry} {key : Key}
  {holders holders' : List EntryId}

/-! ### The counters of an entry -/

def usesAt (pool : Pool) (id : EntryId) : Counter := (pool.get? id).elim (.start 0) (·.uses)

def ldcUsesAt (pool : Pool) (id : EntryId) : Counter := (pool.get? id).elim (.start 0) (·.ldcUses)

/-- The number of uses that an entry shows. -/
def usesOf (pool : Pool) (id : EntryId) : Nat := (pool.usesAt id).value

theorem usesAt_of_get? (h : pool.get? id = some entry) : pool.usesAt id = entry.uses := by
  rw [usesAt, h, Option.elim_some]

theorem ldcUsesAt_of_get? (h : pool.get? id = some entry) :
    pool.ldcUsesAt id = entry.ldcUses := by
  rw [ldcUsesAt, h, Option.elim_some]

theorem usesOf_of_get? (h : pool.get? id = some entry) :
    pool.usesOf id = entry.uses.value := by
  rw [usesOf, usesAt_of_get? h]

theorem ldcWeight_eq (pool : Pool) (id : EntryId) :
    pool.ldcWeight id = (pool.ldcUsesAt id).value := by
  unfold ldcWeight ldcUsesAt
  cases pool.get? id <;> rfl

theorem ldcWeight_le_total (pool : Pool) (id : EntryId) :
    pool.ldcWeight id ≤ (pool.ldcUsesAt id).total := by
  rw [ldcWeight_eq]
  exact Nat.le_add_left _ _

/-- No counter of the pool has started again. -/
def NoOverflow (pool : Pool) : Prop :=
  ∀ entry ∈ pool.arena.toList, entry.uses.wraps = 0 ∧ entry.ldcUses.wraps = 0

instance (pool : Pool) : Decidable pool.NoOverflow :=
  inferInstanceAs (Decidable (∀ entry ∈ pool.arena.toList, _))

theorem noOverflow_iff : pool.NoOverflow ↔ ∀ id entry, pool.get? id = some entry →
    entry.uses.wraps = 0 ∧ entry.ldcUses.wraps = 0 := by
  unfold NoOverflow get?
  simp only [List.mem_iff_getElem?, Array.getElem?_toList]
  constructor
  · exact fun h id entry hEntry => h entry ⟨id, hEntry⟩
  · rintro h entry ⟨id, hEntry⟩
    exact h id entry hEntry

theorem NoOverflow.wraps_usesAt (h : pool.NoOverflow) (id : EntryId) :
    (pool.usesAt id).wraps = 0 := by
  unfold usesAt
  cases hEntry : pool.get? id with
  | none => rfl
  | some entry => exact (noOverflow_iff.mp h id entry hEntry).1

theorem NoOverflow.wraps_ldcUsesAt (h : pool.NoOverflow) (id : EntryId) :
    (pool.ldcUsesAt id).wraps = 0 := by
  unfold ldcUsesAt
  cases hEntry : pool.get? id with
  | none => rfl
  | some entry => exact (noOverflow_iff.mp h id entry hEntry).2

theorem NoOverflow.usesOf_eq (h : pool.NoOverflow) (id : EntryId) :
    pool.usesOf id = (pool.usesAt id).total := Counter.value_eq_total (h.wraps_usesAt id)

theorem NoOverflow.ldcWeight_eq (h : pool.NoOverflow) (id : EntryId) :
    pool.ldcWeight id = (pool.ldcUsesAt id).total := by
  rw [Pool.ldcWeight_eq, Counter.value_eq_total (h.wraps_ldcUsesAt id)]

theorem get?_of_total_pos (h : 0 < (pool.usesAt id).total) :
    ∃ entry, pool.get? id = some entry := by
  unfold usesAt at h
  cases hEntry : pool.get? id with
  | none => rw [hEntry] at h; simp at h
  | some entry => exact ⟨entry, rfl⟩

theorem get?_of_usesOf_pos (h : 0 < pool.usesOf id) : ∃ entry, pool.get? id = some entry := by
  refine get?_of_total_pos (Nat.lt_of_lt_of_le h ?_)
  exact Nat.le_add_left _ _

@[simp] theorem usesAt_modify (pool : Pool) (id other : EntryId) (f : Entry → Entry) :
    (pool.modify id f).usesAt other =
      if other = id then (pool.get? other).elim (.start 0) fun entry => (f entry).uses
      else pool.usesAt other := by
  unfold usesAt
  rw [get?_modify]
  split
  · cases pool.get? other <;> rfl
  · rfl

@[simp] theorem ldcUsesAt_modify (pool : Pool) (id other : EntryId) (f : Entry → Entry) :
    (pool.modify id f).ldcUsesAt other =
      if other = id then (pool.get? other).elim (.start 0) fun entry => (f entry).ldcUses
      else pool.ldcUsesAt other := by
  unfold ldcUsesAt
  rw [get?_modify]
  split
  · cases pool.get? other <;> rfl
  · rfl

theorem counting_addUse : Counting fun entry => { entry with uses := entry.uses.add 1 } :=
  ⟨fun _ => rfl, fun _ => rfl, fun _ => rfl⟩

theorem counting_dropUse : Counting fun entry => { entry with uses := entry.uses.drop } :=
  ⟨fun _ => rfl, fun _ => rfl, fun _ => rfl⟩

theorem counting_addLdcUse :
    Counting fun entry => { entry with ldcUses := entry.ldcUses.add 1 } :=
  ⟨fun _ => rfl, fun _ => rfl, fun _ => rfl⟩

theorem usesAt_addUse (hEntry : pool.get? id = some entry) (other : EntryId) :
    (pool.addUse id).usesAt other =
      if other = id then (pool.usesAt other).add 1 else pool.usesAt other := by
  unfold addUse
  rw [usesAt_modify]
  by_cases hId : other = id
  · subst other
    rw [if_pos rfl, if_pos rfl, hEntry, usesAt_of_get? hEntry]
    rfl
  · rw [if_neg hId, if_neg hId]

@[simp] theorem usesAt_dropUse (pool : Pool) (id other : EntryId) :
    (pool.dropUse id).usesAt other =
      if other = id then (pool.usesAt other).drop else pool.usesAt other := by
  unfold dropUse
  rw [usesAt_modify]
  by_cases hId : other = id
  · rw [if_pos hId, if_pos hId, usesAt]
    cases pool.get? other <;> rfl
  · rw [if_neg hId, if_neg hId]

@[simp] theorem usesAt_addLdcUse (pool : Pool) (id : EntryId) :
    (pool.addLdcUse id).usesAt = pool.usesAt := by
  funext other
  unfold addLdcUse
  rw [usesAt_modify]
  split <;> rfl

@[simp] theorem ldcUsesAt_addUse (pool : Pool) (id : EntryId) :
    (pool.addUse id).ldcUsesAt = pool.ldcUsesAt := by
  funext other
  unfold addUse
  rw [ldcUsesAt_modify]
  split <;> rfl

@[simp] theorem ldcUsesAt_dropUse (pool : Pool) (id : EntryId) :
    (pool.dropUse id).ldcUsesAt = pool.ldcUsesAt := by
  funext other
  unfold dropUse
  rw [ldcUsesAt_modify]
  split <;> rfl

theorem ldcUsesAt_addLdcUse (hEntry : pool.get? id = some entry) (other : EntryId) :
    (pool.addLdcUse id).ldcUsesAt other =
      if other = id then (pool.ldcUsesAt other).add 1 else pool.ldcUsesAt other := by
  unfold addLdcUse
  rw [ldcUsesAt_modify]
  by_cases hId : other = id
  · subst other
    rw [if_pos rfl, if_pos rfl, hEntry, ldcUsesAt_of_get? hEntry]
    rfl
  · rw [if_neg hId, if_neg hId]

/-- The counters of a new entry are its own, and no other counter changes. -/
theorem counters_append (pool : Pool) (entry : Entry) (key : Key) (other : EntryId) :
    ((pool.enter entry key).place pool.arena.size).usesAt other =
        (if other = pool.arena.size then entry.uses else pool.usesAt other) ∧
      ((pool.enter entry key).place pool.arena.size).ldcUsesAt other =
        if other = pool.arena.size then entry.ldcUses else pool.ldcUsesAt other := by
  unfold usesAt ldcUsesAt
  rw [get?_place, get?_enter]
  by_cases hNew : other = pool.arena.size
  · simp [hNew]
  · simp [hNew]

theorem ldcUsesAt_append (pool : Pool) (value : Constant) (key : Key) :
    ((pool.enter (.new pool.id value 1 0) key).place pool.arena.size).ldcUsesAt =
      pool.ldcUsesAt := by
  funext other
  rw [(counters_append ..).2]
  split
  next hNew =>
    rw [hNew, ldcUsesAt, get?_arena_size]
    rfl
  next => rfl

/-! ### References -/

/-- The entries that the entry of the given number refers to. -/
def targetsAt (pool : Pool) (id : EntryId) : List EntryId :=
  (pool.source.constant? id).elim [] Constant.targets

/-- All references between entries, live or deleted. -/
def references (pool : Pool) : List EntryId :=
  (List.range pool.arena.size).flatMap pool.targetsAt

theorem mem_references_iff :
    id ∈ pool.references ↔
      ∃ other entry, pool.get? other = some entry ∧ id ∈ entry.value.targets := by
  unfold references targetsAt
  simp only [List.mem_flatMap, List.mem_range]
  constructor
  · rintro ⟨other, _, hId⟩
    cases hAt : pool.source.constant? other with
    | none => rw [hAt] at hId; cases hId
    | some constant =>
      rw [hAt] at hId
      obtain ⟨entry, hEntry, rfl⟩ := constant?_eq_some.mp hAt
      exact ⟨other, entry, hEntry, hId⟩
  · rintro ⟨other, entry, hEntry, hId⟩
    exact ⟨other, lt_size_of_get? hEntry, by rw [constant?_of_get? hEntry]; exact hId⟩

theorem references_congr {after : Pool} (hSize : after.arena.size = pool.arena.size)
    (hConstants : after.source.constant? = pool.source.constant?) :
    after.references = pool.references := by
  unfold references
  rw [hSize]
  exact congrArg (List.flatMap · (List.range pool.arena.size))
    (funext fun id => by unfold targetsAt; rw [hConstants])

theorem references_modify {f : Entry → Entry} (hf : Counting f) (pool : Pool) (id : EntryId) :
    (pool.modify id f).references = pool.references :=
  references_congr (by simp [modify]) (by rw [source_modify hf])

theorem references_enter (pool : Pool) (entry : Entry) (key : Key) :
    (pool.enter entry key).references = pool.references ++ entry.value.targets := by
  have hOld : ∀ id ∈ List.range pool.arena.size,
      (pool.enter entry key).targetsAt id = pool.targetsAt id := by
    intro id hId
    have hNe : id ≠ pool.arena.size := Nat.ne_of_lt (List.mem_range.mp hId)
    change Option.elim (Option.map _ ((pool.enter entry key).get? id)) _ _ = _
    rw [get?_enter, if_neg hNe]
    rfl
  have hNew : (pool.enter entry key).targetsAt pool.arena.size = entry.value.targets := by
    unfold targetsAt
    rw [constant?_of_get? (get?_enter_self pool entry key)]
    rfl
  unfold references
  rw [show (pool.enter entry key).arena.size = pool.arena.size + 1 from Array.size_push ..,
    List.range_succ, List.flatMap_append, List.flatMap_singleton, hNew, List.flatMap_congr hOld]

theorem references_append (pool : Pool) (entry : Entry) (key : Key) :
    ((pool.enter entry key).place pool.arena.size).references =
      pool.references ++ entry.value.targets := by
  rw [references_congr (arena_size_place ..) (constant?_place ..), references_enter]

/-! ### Accounts -/

/-- The uses of each entry are the references to it and the holders from outside, unless its counter
has started again. -/
def Accounts (pool : Pool) (holders : List EntryId) : Prop :=
  ∀ id, (pool.usesAt id).wraps = 0 →
    (pool.usesAt id).total = pool.references.count id + holders.count id

theorem accounts_empty (id : PoolId) : (empty id).Accounts [] := by
  intro other _
  rw [usesAt, show (empty id).get? other = none from rfl, Option.elim_none, Counter.total_start]
  rfl

theorem Accounts.perm (h : pool.Accounts holders) (hPerm : holders.Perm holders') :
    pool.Accounts holders' := fun id hWraps => by rw [h id hWraps, hPerm.count_eq]

theorem Accounts.addUse (h : pool.Accounts holders) (hEntry : pool.get? id = some entry) :
    (pool.addUse id).Accounts (id :: holders) := by
  have hReferences : (pool.addUse id).references = pool.references :=
    references_modify counting_addUse pool id
  intro other hWraps
  rw [usesAt_addUse hEntry] at hWraps ⊢
  rw [hReferences, List.count_cons]
  by_cases hId : other = id
  · subst other
    rw [if_pos rfl] at hWraps ⊢
    have hBefore : (pool.usesAt id).wraps = 0 :=
      Nat.le_zero.mp (hWraps ▸ Counter.wraps_le_add (pool.usesAt id) 1)
    rw [Counter.total_add, h id hBefore]
    simp
    omega
  · rw [if_neg hId] at hWraps ⊢
    rw [h other hWraps]
    simp [Ne.symm hId]

theorem Accounts.append (h : pool.Accounts (entry.value.targets ++ holders))
    (hUses : entry.uses = .start 1) :
    ((pool.enter entry key).place pool.arena.size).Accounts (pool.arena.size :: holders) := by
  -- the holders of what the entry refers to turn into the references of the entry
  intro other hWraps
  have hOther := h other
  rw [List.count_append] at hOther
  rw [(counters_append pool entry key other).1] at hWraps ⊢
  rw [references_append, List.count_append, List.count_cons]
  by_cases hNew : other = pool.arena.size
  · subst other
    rw [usesAt, get?_arena_size, Option.elim_none, Counter.total_start] at hOther
    have hNone := hOther rfl
    rw [if_pos rfl, hUses, Counter.total_start]
    simp at hNone ⊢
    omega
  · rw [if_neg hNew] at hWraps ⊢
    rw [hOther hWraps]
    simp [Ne.symm hNew]
    omega

theorem Accounts.usesOf_eq (h : pool.Accounts holders) (hCounters : pool.NoOverflow)
    (id : EntryId) : pool.usesOf id = pool.references.count id + holders.count id := by
  rw [hCounters.usesOf_eq, h id (hCounters.wraps_usesAt id)]

theorem Accounts.usesOf_pos_of_mem_references (h : pool.Accounts holders)
    (hCounters : pool.NoOverflow) (hId : id ∈ pool.references) : 0 < pool.usesOf id := by
  have hCount := List.count_pos_iff.mpr hId
  rw [h.usesOf_eq hCounters]
  omega

theorem Accounts.usesOf_pos_of_mem_holders (h : pool.Accounts holders)
    (hCounters : pool.NoOverflow) (hId : id ∈ holders) : 0 < pool.usesOf id := by
  have hCount := List.count_pos_iff.mpr hId
  rw [h.usesOf_eq hCounters]
  omega

theorem Accounts.dropUse (h : pool.Accounts (id :: holders)) :
    (pool.dropUse id).Accounts holders := by
  have hReferences : (pool.dropUse id).references = pool.references :=
    references_modify counting_dropUse pool id
  intro other hWraps
  rw [usesAt_dropUse] at hWraps ⊢
  rw [hReferences]
  have hOther := h other
  rw [List.count_cons] at hOther
  by_cases hId : other = id
  · subst other
    rw [if_pos rfl] at hWraps ⊢
    rw [Counter.wraps_drop] at hWraps
    rw [Counter.total_drop hWraps, hOther hWraps]
    simp
  · rw [if_neg hId] at hWraps ⊢
    rw [hOther hWraps]
    simp [Ne.symm hId]

theorem Accounts.addLdcUse (h : pool.Accounts holders) : (pool.addLdcUse id).Accounts holders := by
  have hReferences : (pool.addLdcUse id).references = pool.references :=
    references_modify counting_addLdcUse pool id
  intro other hWraps
  rw [usesAt_addLdcUse] at hWraps ⊢
  rw [hReferences]
  exact h other hWraps

/-! ### Ways of keeping account -/

/-- A way of keeping account of holders: who is handed an entry that was found or made becomes a
holder of it, and a new entry takes over from the holders of what it refers to. -/
structure IsLedger (L : Pool → List EntryId → Prop) : Prop where
  perm : ∀ {pool holders holders'}, L pool holders → List.Perm holders holders' → L pool holders'
  addUse : ∀ {pool holders id entry}, L pool holders → pool.get? id = some entry →
    L (pool.addUse id) (id :: holders)
  append : ∀ {pool holders value key}, L pool (value.targets ++ holders) →
    L ((pool.enter (.new pool.id value 1 0) key).place pool.arena.size) (pool.arena.size :: holders)

theorem isLedger_accounts : IsLedger Accounts where
  perm h hPerm := h.perm hPerm
  addUse h hEntry := h.addUse hEntry
  append h := h.append rfl

theorem isLedger_ldcUsesAt (counters : EntryId → Counter) :
    IsLedger fun pool _ => pool.ldcUsesAt = counters where
  perm h _ := h
  addUse h _ := (ldcUsesAt_addUse _ _).trans h
  append h := (ldcUsesAt_append ..).trans h

/-- The uses of each entry cover a least number, and the holders from outside on top of it. -/
def Covers (pool : Pool) (least : EntryId → Nat) (holders : List EntryId) : Prop :=
  ∀ id, least id + holders.count id ≤ (pool.usesAt id).total

section Covering

variable {least : EntryId → Nat}

theorem covers_self (pool : Pool) : pool.Covers (fun id => (pool.usesAt id).total) [] := by
  simp [Covers]

theorem Covers.le_total (h : pool.Covers least holders) (id : EntryId) :
    least id ≤ (pool.usesAt id).total := Nat.le_of_add_right_le (h id)

theorem Covers.addUse (h : pool.Covers least holders) (hEntry : pool.get? id = some entry) :
    (pool.addUse id).Covers least (id :: holders) := by
  intro other
  have hOther := h other
  rw [usesAt_addUse hEntry, List.count_cons]
  by_cases hId : other = id
  · subst other
    rw [if_pos rfl, Counter.total_add]
    simp
    omega
  · rw [if_neg hId]
    simpa [Ne.symm hId] using hOther

theorem Covers.dropUse (h : pool.Covers least (id :: holders)) :
    (pool.dropUse id).Covers least holders := by
  intro other
  have hOther := h other
  have hDrop := (pool.usesAt other).total_le_drop_add_one
  rw [List.count_cons] at hOther
  rw [usesAt_dropUse]
  by_cases hId : other = id
  · subst other
    rw [beq_self_eq_true, if_pos rfl] at hOther
    rw [if_pos rfl]
    omega
  · rw [if_neg hId]
    omega

theorem Covers.append (h : pool.Covers least (entry.value.targets ++ holders))
    (hUses : entry.uses = .start 1) :
    ((pool.enter entry key).place pool.arena.size).Covers least (pool.arena.size :: holders) := by
  intro other
  have hOther := h other
  rw [List.count_append] at hOther
  rw [(counters_append pool entry key other).1, List.count_cons]
  by_cases hNew : other = pool.arena.size
  · subst other
    rw [usesAt, get?_arena_size, Option.elim_none, Counter.total_start] at hOther
    rw [if_pos rfl, hUses, Counter.total_start]
    simp at hOther ⊢
    omega
  · rw [if_neg hNew]
    simp [Ne.symm hNew]
    omega

end Covering

theorem isLedger_covers (least : EntryId → Nat) :
    IsLedger fun pool holders => pool.Covers least holders where
  perm h hPerm id := by
    rw [← hPerm.count_eq]
    exact h id
  addUse h hEntry := h.addUse hEntry
  append h := h.append rfl

/-- Neither counter of an entry exceeds the references to it and its holders from outside by more than
the given number. -/
def Bounded (pool : Pool) (most : Nat) (holders : List EntryId) : Prop :=
  ∀ id, (pool.usesAt id).total ≤ most + pool.references.count id + holders.count id ∧
    (pool.ldcUsesAt id).total ≤ most + pool.references.count id + holders.count id

section Bounding

variable {most : Nat}

theorem bounded_empty (id : PoolId) : (empty id).Bounded 0 [] := by
  intro other
  have hNone : (empty id).get? other = none := rfl
  simp [usesAt, ldcUsesAt, hNone]

theorem Bounded.addUse (h : pool.Bounded most holders) (hEntry : pool.get? id = some entry) :
    (pool.addUse id).Bounded most (id :: holders) := by
  have hReferences : (pool.addUse id).references = pool.references :=
    references_modify counting_addUse pool id
  intro other
  obtain ⟨hUses, hLdc⟩ := h other
  rw [usesAt_addUse hEntry, ldcUsesAt_addUse, hReferences, List.count_cons]
  by_cases hId : other = id
  · subst other
    simp
    omega
  · simpa [hId, Ne.symm hId] using ⟨hUses, hLdc⟩

theorem Bounded.dropUse (h : pool.Bounded most holders) (id : EntryId) :
    (pool.dropUse id).Bounded most holders := by
  have hReferences : (pool.dropUse id).references = pool.references :=
    references_modify counting_dropUse pool id
  intro other
  obtain ⟨hUses, hLdc⟩ := h other
  rw [usesAt_dropUse, ldcUsesAt_dropUse, hReferences]
  refine ⟨?_, hLdc⟩
  split
  · exact Nat.le_trans (Counter.total_drop_le _) hUses
  · exact hUses

theorem Bounded.append (h : pool.Bounded most (entry.value.targets ++ holders))
    (hUses : entry.uses = .start 1) (hLdcUses : entry.ldcUses = .start 0) :
    ((pool.enter entry key).place pool.arena.size).Bounded most (pool.arena.size :: holders) := by
  intro other
  obtain ⟨hOther, hLdc⟩ := h other
  rw [List.count_append] at hOther hLdc
  rw [(counters_append pool entry key other).1, (counters_append pool entry key other).2,
    references_append, List.count_append, List.count_cons]
  by_cases hNew : other = pool.arena.size
  · subst other
    simp [hUses, hLdcUses]
    omega
  · simp [hNew, Ne.symm hNew]
    omega

theorem Bounded.mono {most' : Nat} (h : pool.Bounded most holders) (hLe : most ≤ most') :
    pool.Bounded most' holders := by
  intro id
  obtain ⟨hUses, hLdc⟩ := h id
  omega

/-- What holders hold may as well be allowed for. -/
theorem Bounded.allow {ids : List EntryId} (h : pool.Bounded most (ids ++ holders)) :
    pool.Bounded (most + ids.length) holders := by
  intro id
  have hCount : ids.count id ≤ ids.length := List.count_le_length
  obtain ⟨hUses, hLdc⟩ := h id
  rw [List.count_append] at hUses hLdc
  omega

end Bounding

theorem isLedger_bounded (most : Nat) :
    IsLedger fun pool holders => pool.Bounded most holders where
  perm h hPerm id := by
    rw [← hPerm.count_eq]
    exact h id
  addUse h hEntry := h.addUse hEntry
  append h := h.append rfl rfl

/-- No account is kept. -/
theorem isLedger_true : IsLedger fun _ _ => True := by
  constructor <;> intros <;> trivial

end ClassRom.Pool
