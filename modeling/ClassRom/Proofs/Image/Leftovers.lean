import ClassRom.Proofs.Image.Accounting
import ClassRom.Proofs.Image.Relocating
import ClassRom.Proofs.Pool.Sorting

/-!
# What compaction leaves over

Compaction drops the entries without uses, in one pass. The references of a dropped entry were
counted as uses and are not taken back, so what only a dropped entry refers to stays.
-/

namespace ClassRom

set_option autoImplicit false

namespace Pool

variable {pool before after : Pool} {id : EntryId}

/-- One entry refers to another. -/
def RefersTo (pool : Pool) (id target : EntryId) : Prop := target ∈ pool.targetsAt id

instance (pool : Pool) (id target : EntryId) : Decidable (pool.RefersTo id target) :=
  inferInstanceAs (Decidable (target ∈ pool.targetsAt id))

theorem Relaid.refersTo_iff (h : Relaid before after) {target : EntryId} :
    after.RefersTo id target ↔ before.RefersTo id target := by
  unfold RefersTo targetsAt
  rw [h.constant?_eq]

theorem mem_references_iff_refersTo : id ∈ pool.references ↔ ∃ other, pool.RefersTo other id := by
  unfold references
  rw [List.mem_flatMap]
  constructor
  · rintro ⟨other, _, hTarget⟩
    exact ⟨other, hTarget⟩
  · rintro ⟨other, hTarget⟩
    refine ⟨other, ?_, hTarget⟩
    rw [List.mem_range]
    by_contra hSize
    have hNone : pool.get? other = none := Array.getElem?_eq_none (Nat.not_lt.mp hSize)
    simp [RefersTo, targetsAt, source, hNone] at hTarget

end Pool

theorem Settings.mem_order_freeze {settings : Settings} {pool : Pool} {id : EntryId}
    (h : pool.Valid) :
    id ∈ (settings.freeze pool).order ↔
      id ∈ pool.order ∧ (settings.compact → 0 < pool.usesOf id) := by
  have hSort := settings.pruned_sorted h
  have hOrder : id ∈ (if settings.sort then pool.lock.sortByLdcUse else pool.lock).order ↔
      id ∈ pool.order := by
    split
    · rw [Pool.order_sortByLdcUse (Pool.pruned_lock h).valid, (Pool.sortByWeight_perm _ _).mem_iff]
      rfl
    · rfl
  unfold freeze
  dsimp only
  split
  next hCompact =>
    rw [Pool.mem_order_compact hSort.valid, hSort.usesOf_eq, hOrder]
    simp [hCompact]
  next hCompact =>
    rw [hOrder]
    simp [hCompact]

namespace Image

variable {image image' : Image} {files : List ClassFile} {id : EntryId}

/-- A loaded class mentions the entry. -/
def Mentions (image : Image) (id : EntryId) : Prop := ∃ loaded ∈ image.classes, id ∈ loaded.held

/-- What freezing keeps, unless a counter has started again: all that classes mention and all that any
entry refers to. -/
theorem Exact.mem_order_freeze_iff (h : image.Exact files) (hCounters : image.pool.NoOverflow)
    (hCompact : image.settings.compact) :
    id ∈ (image.settings.freeze image.pool).order ↔
      image.Mentions id ∨ ∃ other, image.pool.RefersTo other id := by
  have hUses : 0 < image.pool.usesOf id ↔
      image.Mentions id ∨ ∃ other, image.pool.RefersTo other id := by
    have hMentions : image.Mentions id ↔ id ∈ image.classes.flatMap LoadedClass.held :=
      List.mem_flatMap.symm
    rw [hMentions, ← Pool.mem_references_iff_refersTo, h.balanced.accounts.usesOf_eq hCounters,
      ← List.count_pos_iff, ← List.count_pos_iff]
    omega
  rw [Settings.mem_order_freeze h.sound.valid, ← hUses, forall_prop_of_true hCompact,
    and_iff_right_iff_imp]
  intro hPos
  obtain ⟨entry, hEntry⟩ := Pool.get?_of_usesOf_pos hPos
  exact h.sound.valid.mem_order_iff.mpr ⟨entry, hEntry, h.sound.live id entry hEntry⟩

theorem settings_loadAll (h : image.loadAll files = .ok image') :
    image'.settings = image.settings := by
  rw [eq_addClasses_of_loadAll h, settings_addClasses]

/-- The entry is in the final pool, though no class mentions it and no other entry of the final pool
refers to it. -/
def Leftover (image : Image) (pool : Pool) (id : EntryId) : Prop :=
  id ∈ pool.order ∧ ¬image.Mentions id ∧ ∀ other ∈ pool.order, ¬pool.RefersTo other id

/-- Compaction keeps what classes mention and what an entry refers to, be it dropped or not. So it
leaves over what dropped entries refer to, unless a class mentions it or another entry refers to it
that is not dropped. -/
theorem finish_leaves_over_iff (settings : Settings) (hCompact : settings.compact)
    (files : List ClassFile) (hRead : ∀ file ∈ files, file.IsRead) (image final : Image)
    (hLoad : (empty settings).loadAll files = .ok image) (hCounters : image.pool.NoOverflow)
    (hFinish : image.finish = (.ok (), final)) :
    (∀ id, id ∈ final.pool.order ↔
      image.Mentions id ∨ ∃ other, final.pool.RefersTo other id) ∧
    ∀ id, image.Leftover final.pool id ↔
      ¬image.Mentions id ∧ (∃ other, final.pool.RefersTo other id) ∧
        ∀ other, final.pool.RefersTo other id → other ∉ final.pool.order := by
  have hExact := (exact_empty settings).loadAll hRead hLoad
  obtain ⟨hPool, _⟩ := finish_ok hExact.sound.collecting hFinish
  have hRelaid := (image.settings.pruned_freeze hExact.sound.valid).toRelaid
  rw [← hPool] at hRelaid
  have hSettings : image.settings.compact := by
    rw [settings_loadAll hLoad]
    exact hCompact
  have hOrder (id : EntryId) : id ∈ final.pool.order ↔
      image.Mentions id ∨ ∃ other, final.pool.RefersTo other id := by
    rw [hPool, hExact.mem_order_freeze_iff hCounters hSettings, ← hPool]
    simp only [hRelaid.refersTo_iff]
  refine ⟨hOrder, fun id => ?_⟩
  unfold Leftover
  rw [hOrder id]
  constructor
  · rintro ⟨hKept, hMentions, hLive⟩
    exact ⟨hMentions, hKept.resolve_left hMentions, fun other hRefers hOther =>
      hLive other hOther hRefers⟩
  · rintro ⟨hMentions, hRefers, hDropped⟩
    exact ⟨.inr hRefers, hMentions, fun other hOther hRefers' => hDropped other hRefers' hOther⟩

end Image

/-! ### A class with an unused string -/

namespace ClassFile

def unusedBytes : Bytes := [
  0xca, 0xfe, 0xba, 0xbe, 0x00, 0x03, 0x00, 0x2d, 0x00, 0x07, 0x01, 0x00, 0x04, 0x44, 0x65, 0x6d,
  0x6f, 0x07, 0x00, 0x01, 0x01, 0x00, 0x10, 0x6a, 0x61, 0x76, 0x61, 0x2f, 0x6c, 0x61, 0x6e, 0x67,
  0x2f, 0x4f, 0x62, 0x6a, 0x65, 0x63, 0x74, 0x07, 0x00, 0x03, 0x01, 0x00, 0x02, 0x68, 0x69, 0x08,
  0x00, 0x05, 0x00, 0x21, 0x00, 0x02, 0x00, 0x04, 0x00, 0x00, 0x00, 0x00, 0x00, 0x00, 0x00, 0x00]

/-- A class that has a string and nothing that could use it. -/
def unused : ClassFile where
  version := .v45_3
  constants := ⟨#[none, some (.utf8 (.unicode "Demo")), some (.classRef (.entry 1)),
    some (.utf8 (.unicode "java/lang/Object")), some (.classRef (.entry 3)),
    some (.utf8 (.unicode "hi")), some (.string (.entry 5))]⟩
  access := 0x21
  thisClass := 2
  superClass := 4
  interfaces := []
  fields := []
  methods := []
  attributes := []

theorem unused_isRead : unused.IsRead := ⟨unusedBytes, [], by decide +kernel⟩

end ClassFile

namespace Image

/-- The image that holds the class with the unused string. -/
def withUnused : Image := (empty ⟨"", "", true, true⟩).addClasses [.unused]

theorem loadAll_unused : (empty ⟨"", "", true, true⟩).loadAll [.unused] = .ok withUnused :=
  loadAll_of_isOk (by decide +kernel)

theorem withUnused_not_mentions : ¬withUnused.Mentions 4 := by
  rintro ⟨loaded, hLoaded, hHeld⟩
  have hNone : ∀ loaded ∈ withUnused.classes, loaded.file.methods = [] ∧
      4 ∉ loaded.handles.entriesOf loaded.file.declarations := by decide +kernel
  rw [LoadedClass.held, ClassFile.mentions_of_methods_eq_nil (hNone loaded hLoaded).1] at hHeld
  exact (hNone loaded hLoaded).2 hHeld

/-- The string has no uses and is dropped, its text is left over. -/
theorem finish_leaves_over_iff_unused :
    ClassFile.unused.IsRead ∧
      (empty ⟨"", "", true, true⟩).loadAll [.unused] = .ok withUnused ∧
      withUnused.pool.NoOverflow ∧ withUnused.finish.1 = .ok () ∧
      (∀ id, id ∈ withUnused.finish.2.pool.order ↔
        withUnused.Mentions id ∨ ∃ other, withUnused.finish.2.pool.RefersTo other id) ∧
      ∀ id, withUnused.Leftover withUnused.finish.2.pool id ↔
        ¬withUnused.Mentions id ∧ (∃ other, withUnused.finish.2.pool.RefersTo other id) ∧
          ∀ other, withUnused.finish.2.pool.RefersTo other id →
            other ∉ withUnused.finish.2.pool.order := by
  have hOk : withUnused.finish.1 = .ok () := by decide +kernel
  have hCounters : withUnused.pool.NoOverflow := by decide +kernel
  refine ⟨ClassFile.unused_isRead, loadAll_unused, hCounters, hOk, ?_⟩
  refine finish_leaves_over_iff ⟨"", "", true, true⟩ rfl [.unused] (fun file hFile => ?_) withUnused
    _ loadAll_unused hCounters (Prod.ext hOk rfl)
  rw [List.mem_singleton.mp hFile]
  exact ClassFile.unused_isRead

/-- Compaction is not complete: the text of the unused string stays in the final pool. -/
theorem finish_leaves_text_over :
    ClassFile.unused.IsRead ∧
      (empty ⟨"", "", true, true⟩).loadAll [.unused] = .ok withUnused ∧
      withUnused.finish.1 = .ok () ∧
      (withUnused.finish.2.pool.get? 4).map (·.value) = some (.utf8 (.unicode "hi")) ∧
      withUnused.Leftover withUnused.finish.2.pool 4 :=
  ⟨ClassFile.unused_isRead, loadAll_unused, by decide +kernel, by decide +kernel, by decide +kernel,
    withUnused_not_mentions, by decide +kernel⟩

end Image

end ClassRom
