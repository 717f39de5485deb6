import ClassRom.Proofs.Pool.Operations

/-!
# Refused constants

The references of a container that constants are taken from are not trusted: they may lead nowhere,
to constants of another kind or around in circles. But a constant is added only after its key is
known, and the key follows all of them. So a constant that has no key is refused before anything
changed, as is a new one by a locked pool, and the work on what a constant with a key refers to ends
three constants deep. Lack of slots alone can stop that work half-way.
-/

namespace ClassRom.Pool

set_option autoImplicit false

variable {pool before after : Pool} {source : Source} {id : EntryId} {constant : Constant}
  {key : Key} {fault : Fault} {again again' : EntryId → Pool → Except Fault EntryId × Pool}

/-! ### The depth of the calls -/

/-- The functions do the same with the constants that have a key and a rank below the bound. -/
def AgreeBelow (source : Source) (bound : Nat)
    (again again' : EntryId → Pool → Except Fault EntryId × Pool) : Prop :=
  ∀ id constant key, source.constant? id = some constant → source.HasKey constant key →
    constant.rank < bound → again id = again' id

theorem addNew_congr {bound : Nat} (h : AgreeBelow source bound again again')
    (hKey : source.HasKey constant key) (hRank : constant.rank ≤ bound) :
    addNew again constant key pool = addNew again' constant key pool := by
  have hRefs : ∀ ref ∈ constant.refs, addRef again ref.2 = addRef again' ref.2 := by
    intro ref hRef
    obtain ⟨target, referred, key', hEntry, hAt, _, hKey', hLt⟩ := hKey.exists_of_mem_refs hRef
    have hTarget := h target referred key' hAt hKey' (Nat.lt_of_lt_of_le hLt hRank)
    unfold addRef
    rw [hEntry]
    simp only [Ref.resolved, hTarget]
  unfold addNew
  rw [Constant.mapRefs_eq, Constant.mapRefs_eq, Traversal.mapM_congr hRefs]

theorem addVia_congr {bound : Nat} (h : AgreeBelow source bound again again')
    (hRank : ∀ constant, source.constant? id = some constant → constant.rank ≤ bound) :
    addVia source again id = addVia source again' id := by
  funext pool
  unfold addVia
  split
  next => rfl
  next constant hConstant =>
    split
    next => rfl
    next => rfl
    next =>
      split
      next => rfl
      next key hKeyOf =>
        rw [addNew_congr h (Source.hasKey_of_keyOf hKeyOf) (hRank constant hConstant)]

theorem AgreeBelow.addVia {bound : Nat} (h : AgreeBelow source bound again again') :
    AgreeBelow source (bound + 1) (addVia source again) (addVia source again') := by
  intro id constant _ hConstant _ hRank
  apply addVia_congr h
  intro other hOther
  obtain rfl := Option.some.inj (hConstant.symm.trans hOther)
  exact Nat.le_of_lt_succ hRank

/-- The pool takes new constants, and those of the source are not its own. -/
structure Open (source : Source) (pool : Pool) : Prop where
  valid : pool.Valid
  unlocked : pool.locked = false
  foreign : Foreign source pool

theorem Open.steady (h : Open source before) (hSteady : Steady before after) :
    Open source after where
  valid := hSteady.valid
  unlocked := hSteady.locked_eq.trans h.unlocked
  foreign id := by
    rw [hSteady.id_eq]
    exact h.foreign id

theorem Open.admits (h : Open source pool) (L : Pool → List EntryId → Prop) :
    Admits L pool source := h.foreign.admits L

/-- The new entries of a pool that grew within what the roots lead to. -/
theorem Confined.fresh {roots : List EntryId} {entry : Entry} (hBefore : before.Valid)
    (hSteady : Steady before after) (hConfined : Confined source roots before after)
    (hEntry : after.get? id = some entry) (hNew : before.get? id = none) :
    ∃ root ∈ roots, ∃ reached referred key, source.Reaches root reached ∧
      source.constant? reached = some referred ∧ source.HasKey referred key ∧
      after.source.HasKey entry.value key := by
  have hClosed := hSteady.valid.closed id entry.value (constant?_of_get? hEntry)
  obtain ⟨key, hKey⟩ := hClosed.exists_hasKey hSteady.valid.closed
  have hFound := (hSteady.valid.find?_iff key id).mpr
    ⟨entry, hEntry, hSteady.fresh id entry hEntry hNew, hKey⟩
  rcases hConfined key id hFound with hOld | ⟨root, hRoot, reached, referred, hReaches, hAt, hHas⟩
  · obtain ⟨old, hOld, _⟩ := (hBefore.find?_iff key id).mp hOld
    rw [hNew] at hOld
    cases hOld
  · exact ⟨root, hRoot, reached, referred, key, hReaches, hAt, hHas, hKey⟩

/-- The pool with the numbers below a bound put into it. -/
def crowd (pool : Pool) : Nat → Pool
  | 0 => pool
  | n + 1 => ((crowd pool n).appendLocal (.integer (.ofNat n)) 1 0).2

end ClassRom.Pool
