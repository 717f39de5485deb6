import ClassRom.Proofs.Bytecode.Instructions
import ClassRom.Proofs.Image.Charging
import ClassRom.Proofs.Pool.Layout
import ClassRom.Proofs.Reading

/-!
# Loading classes

A class that is added is either loaded, with its code scanned and a handle for each constant, or
refused. The pool stays sound in both cases: it is valid, all its entries are live, and its ledger
balances with what the loaded classes hold. So this is the case after any sequence of additions,
however many of them failed.
-/

namespace ClassRom

set_option autoImplicit false

/-! ### Classes that differ in their bodies -/

structure Method.Rewritten (B : Body → Body → Prop) (before after : Method) : Prop where
  rest_eq : after = { before with body := after.body }
  body : Option.Rel B before.body after.body

/-- Everything but the bodies of methods is the same, and the bodies are related one by one. -/
structure ClassFile.Rewritten (B : Body → Body → Prop) (before after : ClassFile) : Prop where
  rest_eq : after = { before with methods := after.methods }
  methods : List.Forall₂ (Method.Rewritten B) before.methods after.methods

theorem ClassFile.Rewritten.comp {B B' B'' : Body → Body → Prop} {before middle after : ClassFile}
    (hB : ∀ a b c, B a b → B' b c → B'' a c) (h : before.Rewritten B middle)
    (h' : middle.Rewritten B' after) : before.Rewritten B'' after := by
  refine ⟨by rw [h'.rest_eq, h.rest_eq],
    Traversal.forall₂_comp (fun a b c hA hC => ?_) h.methods h'.methods⟩
  exact ⟨by rw [hC.rest_eq, hA.rest_eq], Traversal.option_rel_comp hB hA.body hC.body⟩

theorem ClassFile.Rewritten.exists_before {B : Body → Body → Prop} {before after : ClassFile}
    {method : Method} {body : Body} (h : before.Rewritten B after)
    (hMethod : method ∈ after.methods) (hBody : method.body = some body) :
    ∃ original ∈ before.methods, ∃ body', original.body = some body' ∧ B body' body := by
  obtain ⟨original, hOriginal, hRewritten⟩ := Traversal.exists_left_of_mem h.methods hMethod
  have hRel := hRewritten.body
  rw [hBody] at hRel
  exact ⟨original, hOriginal, Traversal.exists_left_of_rel_some hRel⟩

theorem ClassFile.Rewritten.exists_after {B : Body → Body → Prop} {before after : ClassFile}
    {method : Method} {body : Body} (h : before.Rewritten B after)
    (hMethod : method ∈ before.methods) (hBody : method.body = some body) :
    ∃ rewritten ∈ after.methods, ∃ body', rewritten.body = some body' ∧ B body body' := by
  obtain ⟨rewritten, hMem, hRewritten⟩ := Traversal.exists_right_of_mem h.methods hMethod
  have hRel := hRewritten.body
  rw [hBody] at hRel
  exact ⟨rewritten, hMem, Traversal.exists_right_of_some_rel hRel⟩

/-- The body with its code scanned. -/
structure Body.Scans (before after : Body) : Prop where
  rest_eq : after = { before with bytecode := after.bytecode }
  bytecode : before.bytecode.scan = .ok after.bytecode

theorem ClassFile.scan_rewritten {file scanned : ClassFile} (h : file.scan = .ok scanned) :
    file.Rewritten Body.Scans scanned := by
  obtain ⟨methods, hMethods, hDone⟩ := Traversal.bind_eq_ok.mp h
  cases hDone
  refine ⟨rfl, (Traversal.mapM_eq_ok.mp hMethods).imp fun method method' hMethod => ?_⟩
  obtain ⟨body, hBody, hDone⟩ := Traversal.bind_eq_ok.mp hMethod
  cases hDone
  refine ⟨rfl, Traversal.option_rel_imp (fun body body' hScan => ?_)
    (Traversal.option_mapM_eq_ok.mp hBody)⟩
  obtain ⟨bytecode, hBytecode, hDone⟩ := Traversal.bind_eq_ok.mp hScan
  cases hDone
  exact ⟨rfl, hBytecode⟩

/-- The code of every body of the class has the property. -/
def LoadedClass.AllCode (P : Bytecode → Prop) (loaded : LoadedClass) : Prop :=
  ∀ method ∈ loaded.file.methods, ∀ body ∈ method.body, P body.bytecode

theorem LoadedClass.allCode_scanned {file : ClassFile} {loaded : LoadedClass}
    (h : file.scan = .ok loaded.file) : loaded.AllCode Bytecode.Scanned := by
  intro method hMethod body hBody
  obtain ⟨_, _, before, _, hScans⟩ :=
    (ClassFile.scan_rewritten h).exists_before hMethod hBody
  exact (Bytecode.scan_ok hScans.bytecode).1

/-! ### Classes as they are read -/

/-- The class came from reading some bytes. -/
def ClassFile.IsRead (file : ClassFile) : Prop :=
  ∃ input rest, ClassFile.read input = .ok (file, rest)

theorem ClassFile.read_yields : ClassFile.read.Yields fun file => file.constants.WellFormed := by
  refine Reader.yields_after _ fun found => ?_
  refine Reader.yields_ite (fun _ => Reader.yields_throw _) fun _ => ?_
  refine Reader.yields_after _ fun version => Table.read_yields.bind fun raw hRaw => ?_
  refine (Reader.yields_lift fun constants hResolved =>
    Table.wellFormed_of_resolved hRaw.1 hRaw.2 hResolved).bind fun constants hConstants => ?_
  -- the constants are complete: what follows in the file has no part in the property
  iterate 8 refine Reader.yields_after _ fun _ => ?_
  exact Reader.yields_pure hConstants

theorem ClassFile.IsRead.wellFormed {file : ClassFile} (h : file.IsRead) :
    file.constants.WellFormed := by
  obtain ⟨input, rest, hRead⟩ := h
  exact ClassFile.read_yields input file rest hRead

/-! ### Adding one class -/

namespace Image

variable {image image' : Image} {file : ClassFile} {files : List ClassFile}

/-- The class was merged and charged, and the pool is what this left. -/
def Loads (image : Image) (file : ClassFile) (loaded : LoadedClass) (pool : Pool) : Prop :=
  ∃ merged, file.name = .ok loaded.name ∧ file.scan = .ok loaded.file ∧
    image.pool.merge file.constants = (.ok loaded.handles, merged) ∧
    chargeClass loaded.handles loaded.name loaded.file
      (release loaded.handles file.constants.indices merged) = (.ok (), pool)

/-- The class was refused, and the pool is what was left. -/
def Refuses (image : Image) (file : ClassFile) (pool : Pool) : Prop :=
  pool = image.pool ∨ (∃ cause, image.pool.merge file.constants = (.error cause, pool)) ∨
    ∃ map merged name scanned cause, image.pool.merge file.constants = (.ok map, merged) ∧
      chargeClass map name scanned (release map file.constants.indices merged) =
        (.error cause, pool)

theorem addClass_cases (image : Image) (file : ClassFile) :
    (∃ loaded pool, image.Loads file loaded pool ∧
      image.addClass file = (.ok (), { image with pool, classes := image.classes ++ [loaded] })) ∨
    ∃ fault pool, image.Refuses file pool ∧
      image.addClass file = (.error fault, { image with pool }) := by
  unfold addClass
  cases hName : file.name with
  | error fault => exact .inr ⟨_, image.pool, .inl rfl, rfl⟩
  | ok name =>
    dsimp only
    cases hScan : file.scan with
    | error fault => exact .inr ⟨_, image.pool, .inl rfl, rfl⟩
    | ok scanned =>
      have hConstants : scanned.constants = file.constants := by
        rw [(ClassFile.scan_rewritten hScan).rest_eq]
      dsimp only
      rw [hConstants]
      rcases hMerge : image.pool.merge file.constants with ⟨fault | map, merged⟩
      · exact .inr ⟨_, merged, .inr (.inl ⟨fault, hMerge⟩), rfl⟩
      · dsimp only
        rcases hCharge : chargeClass map name scanned
          (release map file.constants.indices merged) with ⟨fault | _, pool⟩
        · exact .inr ⟨_, pool,
            .inr (.inr ⟨map, merged, name, scanned, fault, hMerge, hCharge⟩), rfl⟩
        · exact .inl ⟨⟨name, scanned, map⟩, pool, ⟨merged, hName, hScan, hMerge, hCharge⟩, rfl⟩

section Ledger

variable {holders : List EntryId} {loaded : LoadedClass} {pool : Pool}
  (hTable : file.constants.WellFormed) (hValid : image.pool.Valid)
  (hAccounts : image.pool.Accounts holders)
include hTable hValid hAccounts

/-- Merging and releasing a table leaves the ledger as it was. -/
theorem release_merged {map : HandleMap} {merged : Pool}
    (hMerge : image.pool.merge file.constants = (.ok map, merged)) :
    Pool.Steady image.pool (release map file.constants.indices merged) ∧
      map.Faithful file.constants (release map file.constants.indices merged) ∧
      (release map file.constants.indices merged).Accounts holders := by
  obtain ⟨hSteady, hFaithful, ids, hIds, hAccounts'⟩ :=
    Pool.merge_ok Pool.isLedger_accounts hTable hValid hAccounts hMerge
  have hReleased := (release_recounted map file.constants.indices merged).steady hSteady.valid
  have hAccounts'' := release_undoes Pool.Accounts.dropUse hIds hAccounts'
  exact ⟨hSteady.trans hReleased, hFaithful.mono hReleased.toExtends, hAccounts''⟩

theorem Loads.charged (h : image.Loads file loaded pool) :
    Pool.Steady image.pool pool ∧ loaded.handles.Faithful file.constants pool ∧
      ∃ extra, pool.Accounts (extra ++ holders) ∧
        ∀ use ∈ loaded.file.bodyUses, loaded.handles.Holds extra use.index := by
  obtain ⟨merged, _, _, hMerge, hCharge⟩ := h
  obtain ⟨hSteady, hFaithful, hAccounts'⟩ := release_merged hTable hValid hAccounts hMerge
  have hCharged :=
    chargeClass_charged loaded.name loaded.file hSteady.valid hFaithful hAccounts'
  rw [hCharge] at hCharged
  obtain ⟨hSteady', extra, hExtra, hHeld⟩ := hCharged
  exact ⟨hSteady.trans hSteady', hFaithful.mono hSteady'.toExtends, extra, hExtra, hHeld rfl⟩

theorem Refuses.charged (h : image.Refuses file pool) :
    Pool.Steady image.pool pool ∧ ∃ extra, pool.Accounts (extra ++ holders) := by
  rcases h with rfl | ⟨cause, hMerge⟩ | ⟨map, merged, name, scanned, cause, hMerge, hCharge⟩
  · exact ⟨.refl hValid, [], hAccounts⟩
  · exact Pool.merge_error Pool.isLedger_accounts hTable hValid hAccounts hMerge
  · obtain ⟨hSteady, hFaithful, hAccounts'⟩ := release_merged hTable hValid hAccounts hMerge
    have hCharged := chargeClass_charged name scanned hSteady.valid hFaithful hAccounts'
    rw [hCharge] at hCharged
    obtain ⟨hSteady', extra, hExtra, _⟩ := hCharged
    exact ⟨hSteady.trans hSteady', extra, hExtra⟩

end Ledger

/-! ### Adding many classes -/

/-- The loaded class came from the file, and its bodies hold what they use. -/
structure LoadedFrom (pool : Pool) (holders : List EntryId) (file : ClassFile)
    (loaded : LoadedClass) : Prop where
  name_eq : file.name = .ok loaded.name
  scan_eq : file.scan = .ok loaded.file
  faithful : loaded.handles.Faithful file.constants pool
  held : ∀ use ∈ loaded.file.bodyUses, loaded.handles.Holds holders use.index

theorem LoadedFrom.mono {before after : Pool} {holders holders' : List EntryId}
    {loaded : LoadedClass} (h : LoadedFrom before holders file loaded)
    (hSteady : Pool.Steady before after) (hSub : holders ⊆ holders') :
    LoadedFrom after holders' file loaded :=
  ⟨h.name_eq, h.scan_eq, h.faithful.mono hSteady.toExtends,
    fun use hUse => (h.held use hUse).mono hSub⟩

/-- What is known of an image that has loaded the given files. -/
structure Sound (image : Image) (files : List ClassFile) : Prop where
  collecting : image.stage = .collecting
  valid : image.pool.Valid
  live : ∀ id entry, image.pool.get? id = some entry → entry.index.isSome
  ledger : ∃ holders, image.pool.Accounts holders ∧
    List.Forall₂ (LoadedFrom image.pool holders) files image.classes

theorem live_of_steady {before after : Pool}
    (hLive : ∀ id entry, before.get? id = some entry → entry.index.isSome)
    (hSteady : Pool.Steady before after) :
    ∀ id entry, after.get? id = some entry → entry.index.isSome := by
  intro id entry hEntry
  cases hOld : before.get? id with
  | none => exact hSteady.fresh id entry hEntry hOld
  | some old =>
    obtain ⟨entry', hEntry', _, hIndex⟩ := hSteady.kept id old hOld
    rw [hEntry] at hEntry'
    cases hEntry'
    rw [hIndex]
    exact hLive id old hOld

theorem sound_empty (settings : Settings) : (empty settings).Sound [] where
  collecting := rfl
  valid := Pool.valid_empty 0
  live _ _ hEntry := by cases hEntry
  ledger := ⟨[], Pool.accounts_empty 0, .nil⟩

/-- Adds classes one after the other, whatever comes of each. -/
def addClasses (image : Image) (files : List ClassFile) : Image :=
  files.foldl (fun image file => (image.addClass file).2) image

@[simp] theorem settings_addClass (image : Image) (file : ClassFile) :
    (image.addClass file).2.settings = image.settings := by
  rcases addClass_cases image file with ⟨_, _, _, hAdded⟩ | ⟨_, _, _, hAdded⟩ <;> rw [hAdded]

@[simp] theorem settings_addClasses (image : Image) (files : List ClassFile) :
    (image.addClasses files).settings = image.settings := by
  unfold addClasses
  induction files generalizing image with
  | nil => rfl
  | cons file files ih => rw [List.foldl_cons, ih, settings_addClass]

/-- The files that are loaded when all are added one after the other. -/
def accepted (image : Image) : List ClassFile → List ClassFile
  | [] => []
  | file :: rest =>
    match image.addClass file with
    | (.ok _, image) => file :: image.accepted rest
    | (.error _, image) => image.accepted rest

/-- What loading one class preserves. -/
theorem Sound.addClass_ok (h : image.Sound files) (hRead : file.IsRead)
    (hAdd : image.addClass file = (.ok (), image')) : image'.Sound (files ++ [file]) := by
  obtain ⟨holders, hAccounts, hClasses⟩ := h.ledger
  rcases addClass_cases image file with ⟨loaded, pool, hLoads, hAdded⟩ | ⟨fault, pool, _, hAdded⟩
  · rw [hAdded] at hAdd
    cases hAdd
    obtain ⟨hSteady, hFaithful, extra, hExtra, hHeld⟩ :=
      hLoads.charged hRead.wellFormed h.valid hAccounts
    obtain ⟨_, hName, hScan, _, _⟩ := hLoads
    refine ⟨h.collecting, hSteady.valid, live_of_steady h.live hSteady, extra ++ holders, hExtra,
      ?_⟩
    refine List.rel_append (hClasses.imp fun file loaded hLoaded => ?_) (.cons ?_ .nil)
    · exact hLoaded.mono hSteady (List.subset_append_right extra holders)
    · exact ⟨hName, hScan, hFaithful, fun use hUse =>
        (hHeld use hUse).mono (List.subset_append_left extra holders)⟩
  · rw [hAdded] at hAdd
    cases hAdd

/-- What refusing one class preserves. -/
theorem Sound.addClass_error {fault : ImageFault} (h : image.Sound files) (hRead : file.IsRead)
    (hAdd : image.addClass file = (.error fault, image')) : image'.Sound files := by
  obtain ⟨holders, hAccounts, hClasses⟩ := h.ledger
  rcases addClass_cases image file with ⟨loaded, pool, _, hAdded⟩ | ⟨cause, pool, hRefuses, hAdded⟩
  · rw [hAdded] at hAdd
    cases hAdd
  · rw [hAdded] at hAdd
    cases hAdd
    obtain ⟨hSteady, extra, hExtra⟩ := hRefuses.charged hRead.wellFormed h.valid hAccounts
    -- what a refused class was charged for stays in the ledger, held by no loaded class
    refine ⟨h.collecting, hSteady.valid, live_of_steady h.live hSteady, extra ++ holders, hExtra,
      ?_⟩
    exact hClasses.imp fun file loaded hLoaded =>
      hLoaded.mono hSteady (List.subset_append_right extra holders)

/-- What any sequence of additions preserves. -/
theorem Sound.addClasses {more : List ClassFile} (h : image.Sound files)
    (hRead : ∀ file ∈ more, file.IsRead) :
    (image.addClasses more).Sound (files ++ image.accepted more) := by
  unfold Image.addClasses
  induction more generalizing image files with
  | nil => simpa [accepted] using h
  | cons file more ih =>
    have hFile := hRead file List.mem_cons_self
    have hMore : ∀ other ∈ more, other.IsRead := fun other hOther =>
      hRead other (List.mem_cons_of_mem file hOther)
    rw [List.foldl_cons, accepted]
    rcases hAdd : image.addClass file with ⟨fault | _, image'⟩
    · exact ih (h.addClass_error hFile hAdd) hMore
    · have hRest := ih (h.addClass_ok hFile hAdd) hMore
      rwa [List.append_assoc, List.singleton_append] at hRest

end Image

/-! ### An example class -/

namespace ClassFile

/-- The bytes of a class with one method. -/
def demoBytes : Bytes := [
  0xca, 0xfe, 0xba, 0xbe, 0x00, 0x03, 0x00, 0x2d, 0x00, 0x0e, 0x01, 0x00, 0x04, 0x44, 0x65, 0x6d,
  0x6f, 0x07, 0x00, 0x01, 0x01, 0x00, 0x10, 0x6a, 0x61, 0x76, 0x61, 0x2f, 0x6c, 0x61, 0x6e, 0x67,
  0x2f, 0x4f, 0x62, 0x6a, 0x65, 0x63, 0x74, 0x07, 0x00, 0x03, 0x01, 0x00, 0x02, 0x68, 0x69, 0x08,
  0x00, 0x05, 0x01, 0x00, 0x03, 0x72, 0x75, 0x6e, 0x01, 0x00, 0x03, 0x28, 0x29, 0x56, 0x01, 0x00,
  0x04, 0x43, 0x6f, 0x64, 0x65, 0x01, 0x00, 0x12, 0x4c, 0x6f, 0x63, 0x61, 0x6c, 0x56, 0x61, 0x72,
  0x69, 0x61, 0x62, 0x6c, 0x65, 0x54, 0x61, 0x62, 0x6c, 0x65, 0x01, 0x00, 0x08, 0x53, 0x74, 0x61,
  0x63, 0x6b, 0x4d, 0x61, 0x70, 0x01, 0x00, 0x01, 0x78, 0x01, 0x00, 0x06, 0x4c, 0x44, 0x65, 0x6d,
  0x6f, 0x3b, 0x00, 0x21, 0x00, 0x02, 0x00, 0x04, 0x00, 0x00, 0x00, 0x00, 0x00, 0x01, 0x00, 0x09,
  0x00, 0x07, 0x00, 0x08, 0x00, 0x01, 0x00, 0x09, 0x00, 0x00, 0x00, 0x3f, 0x00, 0x01, 0x00, 0x02,
  0x00, 0x00, 0x00, 0x08, 0x12, 0x06, 0x4c, 0xbb, 0x00, 0x02, 0x57, 0xb1, 0x00, 0x01, 0x00, 0x00,
  0x00, 0x03, 0x00, 0x06, 0x00, 0x04, 0x00, 0x02, 0x00, 0x0a, 0x00, 0x00, 0x00, 0x0c, 0x00, 0x01,
  0x00, 0x03, 0x00, 0x05, 0x00, 0x0c, 0x00, 0x0d, 0x00, 0x01, 0x00, 0x0b, 0x00, 0x00, 0x00, 0x0b,
  0x00, 0x01, 0x00, 0x06, 0x00, 0x00, 0x00, 0x01, 0x07, 0x00, 0x04, 0x00, 0x00]

/-- A body in which a constant is used by a one-byte operand, a two-byte operand, a handler, a local
variable and a stack map frame. -/
def demoBody : Body where
  maxStack := 1
  maxLocals := 2
  bytecode := .ofBytes "Demo.run()V" [0x12, 6, 0x4c, 0xbb, 0, 2, 0x57, 0xb1]
  tables :=
    { handlers := [⟨0, 3, 6, some 4⟩]
      lines := none
      locals := some [⟨3, 5, 12, 13, 1⟩]
      frames := some [⟨6, [], [.object 4]⟩] }
  attributes := []

def demo : ClassFile where
  version := .v45_3
  constants := ⟨#[none, some (.utf8 (.unicode "Demo")), some (.classRef (.entry 1)),
    some (.utf8 (.unicode "java/lang/Object")), some (.classRef (.entry 3)),
    some (.utf8 (.unicode "hi")), some (.string (.entry 5)), some (.utf8 (.unicode "run")),
    some (.utf8 (.unicode "()V")), some (.utf8 (.unicode "Code")),
    some (.utf8 (.unicode "LocalVariableTable")), some (.utf8 (.unicode "StackMap")),
    some (.utf8 (.unicode "x")), some (.utf8 (.unicode "LDemo;"))]⟩
  access := 0x21
  thisClass := 2
  superClass := 4
  interfaces := []
  fields := []
  methods := [⟨9, 7, 8, some demoBody, []⟩]
  attributes := []

theorem demo_isRead : demo.IsRead := ⟨demoBytes, [], by decide +kernel⟩

end ClassFile

end ClassRom
