import ClassRom.Pool.Usage
import ClassRom.Proofs.Bytecode.Grammar
import ClassRom.Proofs.Relocation.Failure

/-!
# The life of code

Code is asked to be scanned, to have its uses counted and to be relocated, in any order and with any
pool, handles and tables. A call leaves the code as it is, scans it, gives it up half way through a
relocation or relocates it. So its progress never goes back, it is rewritten once at most, and once
its constants were found every call is refused and changes nothing. Until then scanning it again
finds the same instructions.
-/

namespace ClassRom

set_option autoImplicit false

/-- How far code with this progress has come. -/
def Progress.rank : Progress → Nat
  | .unscanned => 0
  | .scanned => 1
  | .indicesResolved => 2
  | .relocated => 3

namespace Bytecode

/-- The constants of the code were found already, so that it is past being scanned. -/
def Spent (unit : Bytecode) : Prop := Progress.scanned.rank < unit.progress.rank

inductive Request where
  | scan
  | charge
  | relocate
  deriving DecidableEq

/-- A request with the pool, the handles and the side tables at hand. -/
structure Call where
  request : Request
  pool : Pool
  map : HandleMap
  tables : SideTables

/-- What a call returns, and what it leaves of the code, the pool and the tables. -/
structure Answer where
  result : Except Fault Unit
  unit : Bytecode
  pool : Pool
  tables : SideTables

def answer (unit : Bytecode) (call : Call) : Answer :=
  match call.request with
  | .scan =>
    let (result, unit) := unit.scanInPlace
    ⟨result, unit, call.pool, call.tables⟩
  | .charge =>
    let (result, pool) := unit.charge call.map call.pool
    ⟨result, unit, pool, call.tables⟩
  | .relocate =>
    let (result, unit, tables) := ClassRom.relocate call.pool call.map unit call.tables
    ⟨result, unit, call.pool, tables⟩

/-- The code after a call, whatever the call returned. -/
def step (unit : Bytecode) (call : Call) : Bytecode := (unit.answer call).unit

def run (unit : Bytecode) (calls : List Call) : Bytecode := calls.foldl step unit

/-- Whether the call is a relocation that succeeds. -/
def relocates (unit : Bytecode) (call : Call) : Bool :=
  call.request = .relocate ∧ (unit.answer call).result.isOk

/-- The number of relocations that succeed. -/
def relocations (unit : Bytecode) : List Call → Nat
  | [] => 0
  | call :: rest => (unit.relocates call).toNat + (unit.step call).relocations rest

/-- The fault with which a request for spent code is refused. -/
def refusal (method : String) : Request → Fault
  | .scan => .consistency (.alreadyRelocated method)
  | .charge => .consistency (.notScanned method)
  | .relocate => .consistency (.alreadyRelocated method)

variable {unit unit' : Bytecode}

theorem spent_iff :
    unit.Spent ↔ unit.progress = .indicesResolved ∨ unit.progress = .relocated := by
  unfold Spent
  cases unit.progress <;> decide

/-! ### Scanning again -/

/-- Scanning scanned code finds what is known of it. -/
theorem Scanned.scan_eq (h : unit.Scanned) : unit.scan = .ok unit := by
  have hFresh : ¬(unit.progress = .indicesResolved ∨ unit.progress = .relocated) := by
    rw [h.progress_eq]
    decide
  have hSplit : split unit.code = .ok unit.boundaries := splitFrom_of_tiles h.tiles []
  rw [scan_of_split hFresh h.size_le hSplit, ← h.singles_eq, ← h.doubles_eq, ← h.progress_eq]

theorem scanInPlace_again (unit : Bytecode) :
    unit.scanInPlace.2.scanInPlace = unit.scanInPlace := by
  rcases unit.scanInPlace_cases with ⟨fault, hScan⟩ | ⟨scanned, hOk, hScan⟩
  · rw [hScan, hScan]
  · rw [hScan, scanInPlace, (scan_ok hOk).1.scan_eq]

/-! ### What a call can do -/

theorem scanInPlace_of_spent (h : unit.Spent) :
    unit.scanInPlace = (.error (.consistency (.alreadyRelocated unit.method)), unit) := by
  unfold scanInPlace scan
  rw [if_pos (spent_iff.mp h)]

theorem charge_of_spent (h : unit.Spent) (map : HandleMap) (pool : Pool) :
    unit.charge map pool = (.error (.consistency (.notScanned unit.method)), pool) := by
  have hProgress : unit.progress ≠ .scanned := by
    rcases spent_iff.mp h with hProgress | hProgress <;> rw [hProgress] <;> decide
  unfold charge
  rw [if_neg hProgress]

theorem relocate_of_spent (h : unit.Spent) (pool : Pool) (map : HandleMap) (tables : SideTables) :
    ClassRom.relocate pool map unit tables =
      (.error (.consistency (.alreadyRelocated unit.method)), unit, tables) := by
  unfold ClassRom.relocate
  rcases spent_iff.mp h with hProgress | hProgress <;> rw [hProgress]

/-- Spent code refuses every call, which changes nothing. -/
theorem answer_of_spent (h : unit.Spent) (call : Call) :
    unit.answer call =
      ⟨.error (refusal unit.method call.request), unit, call.pool, call.tables⟩ := by
  unfold answer
  cases call.request with
  | scan => rw [scanInPlace_of_spent h]; rfl
  | charge => rw [charge_of_spent h]; rfl
  | relocate => rw [relocate_of_spent h]; rfl

/-- What a call can make of code, with whether it is a relocation that succeeds. -/
inductive Moves (unit : Bytecode) : Bool → Bytecode → Prop where
  | stays : Moves unit false unit
  | scans : Moves unit false unit.scanInPlace.2
  | givesUp : unit.progress = .scanned →
    Moves unit false { unit with progress := .indicesResolved }
  | relocates {unit' : Bytecode} : unit.progress = .scanned → unit'.method = unit.method →
    unit'.progress = .relocated → Moves unit true unit'

theorem answer_relocate {pool : Pool} {map : HandleMap} {tables tables' : SideTables}
    {result : Except Fault Unit}
    (h : ClassRom.relocate pool map unit tables = (result, unit', tables')) :
    unit.answer ⟨.relocate, pool, map, tables⟩ = ⟨result, unit', pool, tables'⟩ := by
  unfold answer
  dsimp only
  rw [h]

theorem moves_step (unit : Bytecode) (call : Call) :
    unit.Moves (unit.relocates call) (unit.step call) := by
  obtain ⟨request, pool, map, tables⟩ := call
  cases request with
  | scan => exact .scans
  | charge => exact .stays
  | relocate =>
    unfold step relocates
    by_cases hProgress : unit.progress = .scanned
    · rcases Relocation.relocate_cases pool map tables hProgress with
        ⟨found, unit', tables', _, hApply, hRun⟩ | ⟨fault, progress, hCause, hRun⟩
      · obtain ⟨hMethod, hDone⟩ := Relocation.apply_progress hApply
        rw [answer_relocate hRun]
        exact .relocates hProgress hMethod hDone
      · rw [answer_relocate hRun]
        rcases hCause with ⟨_, rfl⟩ | ⟨_, _, _, rfl⟩
        · rw [← hProgress]
          exact .stays
        · exact .givesUp hProgress
    · obtain ⟨fault, hRefused⟩ := Relocation.relocate_of_not_scanned pool map tables hProgress
      rw [answer_relocate hRefused]
      exact .stays

/-! ### What no call can do -/

theorem scanInPlace_frame (unit : Bytecode) :
    unit.scanInPlace.2.method = unit.method ∧ unit.scanInPlace.2.code = unit.code ∧
      unit.progress.rank ≤ unit.scanInPlace.2.progress.rank := by
  rcases unit.scanInPlace_cases with ⟨fault, hScan⟩ | ⟨scanned, hOk, hScan⟩
  · rw [hScan]
    exact ⟨rfl, rfl, Nat.le_refl _⟩
  · obtain ⟨hScanned, hMethod, hCode⟩ := scan_ok hOk
    have hFresh : ¬unit.Spent := by
      intro hSpent
      rw [scanInPlace_of_spent hSpent] at hScan
      cases hScan
    rw [hScan]
    refine ⟨hMethod, hCode, ?_⟩
    rw [hScanned.progress_eq]
    exact Nat.not_lt.mp hFresh

namespace Moves

variable {moved : Bool}

theorem rank_le (h : unit.Moves moved unit') : unit.progress.rank ≤ unit'.progress.rank := by
  cases h with
  | stays => exact Nat.le_refl _
  | scans => exact unit.scanInPlace_frame.2.2
  | givesUp hProgress =>
    rw [hProgress]
    exact Nat.le_succ 1
  | relocates hProgress _ hDone =>
    rw [hProgress, hDone]
    decide

theorem method_eq (h : unit.Moves moved unit') : unit'.method = unit.method := by
  cases h with
  | stays => rfl
  | scans => exact unit.scanInPlace_frame.1
  | givesUp => rfl
  | relocates _ hMethod => exact hMethod

theorem code_eq (h : unit.Moves false unit') : unit'.code = unit.code := by
  cases h with
  | stays => rfl
  | scans => exact unit.scanInPlace_frame.2.1
  | givesUp => rfl

theorem spent (h : unit.Moves true unit') : unit'.Spent := by
  cases h with
  | relocates _ _ hDone => exact spent_iff.mpr (.inr hDone)

/-- Code that is not spent was left as it is or scanned. -/
theorem eq_or_scanned (h : unit.Moves moved unit') (hFresh : ¬unit'.Spent) :
    unit' = unit ∨ unit' = unit.scanInPlace.2 := by
  cases h with
  | stays => exact .inl rfl
  | scans => exact .inr rfl
  | givesUp => exact absurd (spent_iff.mpr (.inl rfl)) hFresh
  | relocates _ _ hDone => exact absurd (spent_iff.mpr (.inr hDone)) hFresh

end Moves

theorem step_of_spent (h : unit.Spent) (call : Call) : unit.step call = unit := by
  unfold step
  rw [answer_of_spent h]

theorem relocates_of_spent (h : unit.Spent) (call : Call) : unit.relocates call = false := by
  unfold relocates
  rw [answer_of_spent h]
  exact decide_eq_false fun hOk => Bool.noConfusion hOk.2

/-! ### Runs -/

theorem run_append (unit : Bytecode) (calls later : List Call) :
    unit.run (calls ++ later) = (unit.run calls).run later := List.foldl_append

theorem rank_le_run (unit : Bytecode) (calls : List Call) :
    unit.progress.rank ≤ (unit.run calls).progress.rank := by
  induction calls generalizing unit with
  | nil => exact Nat.le_refl _
  | cons call calls ih => exact Nat.le_trans (unit.moves_step call).rank_le (ih (unit.step call))

theorem method_run (unit : Bytecode) (calls : List Call) :
    (unit.run calls).method = unit.method := by
  induction calls generalizing unit with
  | nil => rfl
  | cons call calls ih => exact (ih (unit.step call)).trans (unit.moves_step call).method_eq

theorem run_of_spent (h : unit.Spent) (calls : List Call) : unit.run calls = unit := by
  induction calls with
  | nil => rfl
  | cons call calls ih =>
    change (unit.step call).run calls = unit
    rw [step_of_spent h, ih]

theorem relocations_of_spent (h : unit.Spent) (calls : List Call) : unit.relocations calls = 0 := by
  induction calls with
  | nil => rfl
  | cons call calls ih => rw [relocations, relocates_of_spent h, step_of_spent h, ih]; rfl

theorem relocations_le_one (unit : Bytecode) (calls : List Call) : unit.relocations calls ≤ 1 := by
  induction calls generalizing unit with
  | nil => exact Nat.zero_le 1
  | cons call calls ih =>
    have hMoves := unit.moves_step call
    rw [relocations]
    cases hRelocates : unit.relocates call with
    | true =>
      rw [hRelocates] at hMoves
      rw [relocations_of_spent hMoves.spent]
      exact Nat.le_refl 1
    | false =>
      rw [Bool.toNat_false, Nat.zero_add]
      exact ih (unit.step call)

/-- As long as no relocation succeeds, the bytes are the original ones. -/
theorem code_run {calls : List Call} (h : unit.relocations calls = 0) :
    (unit.run calls).code = unit.code := by
  induction calls generalizing unit with
  | nil => rfl
  | cons call calls ih =>
    have hMoves := unit.moves_step call
    obtain ⟨hNow, hLater⟩ := Nat.add_eq_zero_iff.mp h
    rw [Bool.toNat_eq_zero.mp hNow] at hMoves
    exact (ih hLater).trans hMoves.code_eq

theorem spent_of_relocations {calls : List Call} (h : unit.relocations calls ≠ 0) :
    (unit.run calls).Spent := by
  induction calls generalizing unit with
  | nil => exact absurd rfl h
  | cons call calls ih =>
    have hMoves := unit.moves_step call
    change ((unit.step call).run calls).Spent
    cases hRelocates : unit.relocates call with
    | true =>
      rw [hRelocates] at hMoves
      rw [run_of_spent hMoves.spent]
      exact hMoves.spent
    | false =>
      rw [relocations, hRelocates, Bool.toNat_false, Nat.zero_add] at h
      exact ih h

/-- Calls that do not use up code of which a scan finds nothing new leave it as it is. -/
theorem run_of_not_spent {calls : List Call} (hScan : unit.scanInPlace.2 = unit)
    (h : ¬(unit.run calls).Spent) : unit.run calls = unit := by
  induction calls with
  | nil => rfl
  | cons call calls ih =>
    have hFresh : ¬(unit.step call).Spent := fun hSpent =>
      h (Nat.lt_of_lt_of_le hSpent ((unit.step call).rank_le_run calls))
    have hStep : unit.step call = unit := by
      rcases (unit.moves_step call).eq_or_scanned hFresh with hSame | hScanned
      · exact hSame
      · exact hScanned.trans hScan
    change (unit.step call).run calls = unit
    change ¬((unit.step call).run calls).Spent at h
    rw [hStep] at h ⊢
    exact ih h

/-- The progress of code never goes back. At most one relocation succeeds, the bytes are the
original ones until then and stay as they are from then on. Once past being scanned, code refuses
every call, and the call changes nothing. Until then scanning again comes out as it did before. -/
theorem rewritten_at_most_once (unit : Bytecode) (calls : List Call) :
    (∀ later, (unit.run calls).progress.rank ≤ (unit.run (calls ++ later)).progress.rank) ∧
    unit.relocations calls ≤ 1 ∧
    (unit.relocations calls = 0 → (unit.run calls).code = unit.code) ∧
    (unit.relocations calls = 1 → ∀ later, unit.run (calls ++ later) = unit.run calls) ∧
    ((unit.run calls).Spent → ∀ call, (unit.run calls).answer call =
      ⟨.error (refusal unit.method call.request), unit.run calls, call.pool, call.tables⟩) ∧
    ∀ later, ¬((unit.run calls).scanInPlace.2.run later).Spent →
      ((unit.run calls).scanInPlace.2.run later).scanInPlace = (unit.run calls).scanInPlace := by
  refine ⟨?_, relocations_le_one unit calls, code_run, ?_, ?_, ?_⟩
  · intro later
    rw [run_append]
    exact (unit.run calls).rank_le_run later
  · intro hOnce later
    have hSpent : (unit.run calls).Spent := spent_of_relocations (by rw [hOnce]; decide)
    rw [run_append, run_of_spent hSpent]
  · intro hSpent call
    rw [answer_of_spent hSpent, method_run]
  · intro later hFresh
    have hAgain := (unit.run calls).scanInPlace_again
    rw [run_of_not_spent (congrArg Prod.snd hAgain) hFresh, hAgain]

/-- A request with the pool and the handles of the example class, and the tables of its method. -/
def ask (request : Request) : Call :=
  ⟨request, Relocation.demoPool, Relocation.demoHandles, ClassFile.demoBody.tables⟩

/-- Requests of which the first comes too early. -/
def demoCalls : List Call := [.relocate, .scan, .charge, .scan, .relocate].map ask

theorem rewritten_once_demo :
    ClassFile.demoBody.bytecode.relocations demoCalls = 1 ∧
    (ClassFile.demoBody.bytecode.run demoCalls).code ≠ ClassFile.demoBody.bytecode.code ∧
    (ClassFile.demoBody.bytecode.run (demoCalls.take 4)).code = ClassFile.demoBody.bytecode.code ∧
    (∀ later, ClassFile.demoBody.bytecode.run (demoCalls ++ later) =
      ClassFile.demoBody.bytecode.run demoCalls) ∧
    (∀ request, ((ClassFile.demoBody.bytecode.run demoCalls).answer (ask request)).result =
      .error (refusal "Demo.run()V" request)) ∧
    (ClassFile.demoBody.bytecode.scanInPlace.2.run [ask .charge]).scanInPlace =
      ClassFile.demoBody.bytecode.scanInPlace := by
  obtain ⟨_, _, _, hStays, hRefused, _⟩ :=
    rewritten_at_most_once ClassFile.demoBody.bytecode demoCalls
  obtain ⟨_, _, hOriginal, _⟩ :=
    rewritten_at_most_once ClassFile.demoBody.bytecode (demoCalls.take 4)
  obtain ⟨_, _, _, _, _, hAgain⟩ := rewritten_at_most_once ClassFile.demoBody.bytecode []
  have hOnce : ClassFile.demoBody.bytecode.relocations demoCalls = 1 := by decide +kernel
  have hSpent : (ClassFile.demoBody.bytecode.run demoCalls).progress = .relocated := by
    decide +kernel
  have hFresh : ¬(ClassFile.demoBody.bytecode.scanInPlace.2.run [ask .charge]).Spent := by
    rw [spent_iff]
    decide +kernel
  refine ⟨hOnce, by decide +kernel, hOriginal (by decide +kernel), hStays hOnce, ?_,
    hAgain [ask .charge] hFresh⟩
  intro request
  rw [hRefused (spent_iff.mpr (.inr hSpent))]
  rfl

end Bytecode

end ClassRom
