import RelayContracts.Aptos.BlockStm.Executor

/-!
# What rolling commits rely on

The scheduler, the versioned cache, the captured reads, the view of the VM and the record of inputs
and outputs are parameters. This file says what the commits of the executor rely on: there is a
*view* of the states of the scheduler and of the record, which says what a state stands for, and for
each operation a hypothesis about what it answers and how the view changes.

* The scheduler (`SchedulerView`) gives a transaction to one worker at a time, to be executed or
  aborted, and commits transactions in their order. Once it is halted it commits none any more, and
  nothing is asked about the transactions that are left.
* The record (`RecordView`) has the last execution of each transaction, and what was materialized.
* A read that was captured is answered in the same way when it is repeated.

Nothing is asked of the versioned cache, and nothing about which reads are found valid: the commits
are in order whatever the transactions have read.

## Main definitions

* `SchedulerView`, `Scheduler.Correct`
* `RecordView`, `TxnLastInputOutput.Correct`
* `Components.Correct` — all of them
-/

namespace RelayContracts

namespace Aptos

namespace BlockStm

open BlockExecutor

variable {S : Sig}

/-! ### The scheduler -/

/-- What the scheduler knows of a transaction. -/
inductive TxnStatus where
  /-- It is to be executed. -/
  | ready
  /-- A worker has the task to execute or to abort it. -/
  | busy
  /-- It is executed. -/
  | executed
  /-- It is committed. -/
  | committed
  deriving DecidableEq

/-- What a state of the scheduler stands for. -/
structure SchedulerView where
  /-- The transactions. -/
  status : TxnIndex → TxnStatus
  /-- How many transactions are committed. -/
  committed : ℕ
  /-- It was halted. -/
  halted : Bool
  /-- A worker coordinates the commits. -/
  coordinated : Bool
  /-- The committed transactions that are to be materialized. -/
  queue : List TxnIndex

namespace SchedulerView

variable {Wave Condvar : Type}

/-- The status of a transaction changes. -/
def setStatus (v : SchedulerView) (idx : TxnIndex) (s : TxnStatus) : SchedulerView :=
  { v with status := Function.update v.status idx s }

/-- A task may be handed out. -/
def MayGive (v : SchedulerView) : SchedulerTask Wave Condvar → Prop
  | .executionTask idx _ .execution => v.halted = false ∧ v.status idx = .ready
  | .executionTask _ _ (.wakeup _) => True
  | .validationTask _ _ _ => True
  | .retry => True
  | .done => v.halted = true

/-- A task is handed out. -/
def give (v : SchedulerView) : SchedulerTask Wave Condvar → SchedulerView
  | .executionTask idx _ .execution => v.setStatus idx .busy
  | .executionTask _ _ (.wakeup _) => v
  | .validationTask _ _ _ => v
  | .retry => v
  | .done => v

/-- One view becomes another one, which is the same but for the transactions if the scheduler is
halted. -/
def Becomes (v v' : SchedulerView) : Prop :=
  ∃ status, (v.halted = false → status = v.status) ∧ v' = { v with status }

end SchedulerView

/-- What the executor relies on in a scheduler of so many transactions. -/
structure Scheduler.Correct (sched : Scheduler) (numTxns : ℕ) where
  /-- What a state stands for. -/
  view : sched.State → SchedulerView
  /-- At the beginning all transactions are to be executed. -/
  view_new : view (sched.new numTxns) = ⟨fun _ => .ready, 0, false, false, []⟩
  /-- A task is handed out. -/
  nextTask : ∀ st task st', sched.nextTask st = (task, st') →
    (view st).MayGive task ∧ ((view st).give task).Becomes (view st')
  /-- Only an executed transaction is aborted, and none after `halt`. -/
  tryAbort_true : ∀ idx incarnation st st', sched.tryAbort idx incarnation st = (true, st') →
    (view st).halted = false ∧ (view st).status idx = .executed ∧
      view st' = (view st).setStatus idx .busy
  /-- Otherwise nothing happens. -/
  tryAbort_false : ∀ idx incarnation st st', sched.tryAbort idx incarnation st = (false, st') →
    view st' = view st
  /-- After an abort the transaction is to be executed again. A task is handed out. -/
  finishAbort : ∀ idx incarnation st task st',
    ((view st).halted = false → (view st).status idx = .busy) →
    sched.finishAbort idx incarnation st = (.ok task, st') →
    ((view st).setStatus idx .ready).MayGive task ∧
      (((view st).setStatus idx .ready).give task).Becomes (view st')
  /-- Nothing that matters happens. -/
  finishValidation : ∀ idx wave st, view (sched.finishValidation idx wave st) = view st
  /-- After an execution the transaction is executed. A task is handed out. -/
  finishExecution : ∀ idx incarnation outside st task st',
    ((view st).halted = false → (view st).status idx = .busy) →
    sched.finishExecution idx incarnation outside st = (.ok task, st') →
    ((view st).setStatus idx .executed).MayGive task ∧
      (((view st).setStatus idx .executed).give task).Becomes (view st')
  /-- Nothing that matters happens. -/
  finishExecutionDuringCommit : ∀ idx st st',
    sched.finishExecutionDuringCommit idx st = (.ok (), st') → view st' = view st
  /-- Transactions are committed in their order, and none after `halt`. -/
  tryCommit_some : ∀ idx incarnation st st', sched.tryCommit st = (some (idx, incarnation), st') →
    idx = (view st).committed ∧ (view st).status idx = .executed ∧ (view st).halted = false ∧
      view st' = { (view st).setStatus idx .committed with committed := idx + 1 }
  /-- Otherwise nothing happens. -/
  tryCommit_none : ∀ st st', sched.tryCommit st = (none, st') → view st' = view st
  /-- One worker at a time coordinates the commits. -/
  shouldCoordinateCommits_true : ∀ st st', sched.shouldCoordinateCommits st = (true, st') →
    (view st).coordinated = false ∧ view st' = { view st with coordinated := true }
  /-- Otherwise nothing happens. -/
  shouldCoordinateCommits_false : ∀ st st', sched.shouldCoordinateCommits st = (false, st') →
    view st' = view st
  /-- Nothing that matters happens. -/
  queueingCommitsArm : ∀ st, view (sched.queueingCommitsArm st) = view st
  /-- The worker does not coordinate the commits any more. -/
  queueingCommitsMarkDone : ∀ st,
    view (sched.queueingCommitsMarkDone st) = { view st with coordinated := false }
  /-- A transaction is to be materialized. -/
  addToCommitQueue : ∀ idx st,
    view (sched.addToCommitQueue idx st) = { view st with queue := (view st).queue ++ [idx] }
  /-- One of those to be materialized is taken. -/
  popFromCommitQueue_some : ∀ idx st st', sched.popFromCommitQueue st = (some idx, st') →
    idx ∈ (view st).queue ∧ view st' = { view st with queue := (view st).queue.erase idx }
  /-- There is none. -/
  popFromCommitQueue_none : ∀ st st', sched.popFromCommitQueue st = (none, st') →
    (view st).queue = [] ∧ view st' = view st
  /-- No transaction is committed any more. -/
  halt : ∀ st, ∃ status, view (sched.halt st) = { view st with halted := true, status }
  /-- Nothing that matters happens. -/
  notifyOne : ∀ condvar st, view (sched.notifyOne condvar st) = view st

/-! ### Captured reads, and the view of the VM -/

section View

variable {Sched Cache : Type}

/-- What the executor relies on in the captured reads. -/
structure CapturedReads.Correct (reads : CapturedReads S Cache) where
  /-- The reads, with their answers. -/
  captured : reads.ReadSet → List (Request S × Answer S)
  /-- Nothing was read. -/
  captured_new : captured reads.new = []
  /-- That there was an error is not a read. -/
  captured_error : ∀ rs, captured (reads.captureDelayedFieldReadError rs) = captured rs

/-- What the executor relies on in the view of the VM. -/
structure LatestView.Correct {ReadSet : Type} (latest : LatestView S Sched Cache ReadSet)
    (view : Sched → SchedulerView) (captured : ReadSet → List (Request S × Answer S)) : Prop where
  /-- Reading changes nothing that matters. -/
  sched : ∀ idx q rs st a rs' st', latest.read idx q rs st = some ((a, rs'), st') →
    view st'.scheduler = view st.scheduler
  /-- What was read is answered as before. -/
  again : ∀ idx q rs st a rs' st' b, latest.read idx q rs st = some ((a, rs'), st') →
    (captured rs).lookup q = some b → a = b ∧ captured rs' = captured rs
  /-- What was not read is captured. -/
  first : ∀ idx q rs st a rs' st', latest.read idx q rs st = some ((a, rs'), st') →
    (captured rs).lookup q = none → captured rs' = captured rs ++ [(q, a)]

end View

/-! ### The record of inputs and outputs -/

/-- The last execution of a transaction. -/
structure Recorded (S : Sig) (ReadSet : Type) where
  /-- Its reads. -/
  readSet : ReadSet
  /-- How it ended. -/
  status : ExecutionStatus S

/-- What a state of the record stands for. -/
structure RecordView (S : Sig) (ReadSet : Type) where
  /-- The last executions. -/
  recorded : TxnIndex → Option (Recorded S ReadSet)
  /-- The outputs with what was incorporated. -/
  materialized : TxnIndex → Option (Final S)

/-- The execution is one after which the rest of the block is skipped. -/
def isSkipRest : ExecutionStatus S → Bool
  | .skipRest _ => true
  | _ => false

/-- An execution that succeeded is made one after which the rest of the block is skipped. -/
def toSkipRest : ExecutionStatus S → ExecutionStatus S
  | .success o => .skipRest o
  | status => status

namespace RecordView

variable {ReadSet : Type} (v : RecordView S ReadSet)

/-- An execution is recorded, or removed. -/
def setRecorded (idx : TxnIndex) (r : Option (Recorded S ReadSet)) : RecordView S ReadSet :=
  { v with recorded := Function.update v.recorded idx r }

/-- An output is materialized. -/
def setMaterialized (idx : TxnIndex) (final : Final S) : RecordView S ReadSet :=
  { v with materialized := Function.update v.materialized idx (some final) }

end RecordView

/-- What the executor relies on in the record of inputs and outputs. -/
structure TxnLastInputOutput.Correct {ReadSet : Type} (io : TxnLastInputOutput S ReadSet)
    (env : Env S) (captured : ReadSet → List (Request S × Answer S)) where
  /-- What a state stands for. -/
  view : io.State → RecordView S ReadSet
  /-- At the beginning nothing is recorded. -/
  view_new : view (io.new env.numTxns) = ⟨fun _ => none, fun _ => none⟩
  /-- An execution is recorded. -/
  record : ∀ idx rs status writes st st', io.record idx rs status writes st = (true, st') →
    view st' = (view st).setRecorded idx (some ⟨rs, status⟩)
  /-- The reads of the last execution. -/
  readSet : ∀ idx st, io.readSet idx st = ((view st).recorded idx).map Recorded.readSet
  /-- The last execution was not aborted by the VM. -/
  checkFatalVmError : ∀ idx st r, (view st).recorded idx = some r →
    io.checkFatalVmError idx st = .ok () → ∀ e, r.status ≠ .abort e
  /-- The last execution did not end with an error. -/
  checkExecutionStatusDuringCommit : ∀ idx st r, (view st).recorded idx = some r →
    io.checkExecutionStatusDuringCommit idx st = .ok () →
    (∀ msg, r.status ≠ .speculativeExecutionAbortError msg) ∧
      ∀ msg, r.status ≠ .delayedFieldsCodeInvariantError msg
  /-- What is accumulated for an execution that has an output. -/
  feeStatement : ∀ idx st r o, (view st).recorded idx = some r → r.status.output? = some o →
    io.feeStatement idx st =
      some fun limit => env.accumulateFeeStatement limit idx o ((captured r.readSet).map Prod.fst)
  /-- The rest of the block is to be skipped. -/
  updateToSkipRest : ∀ idx st r, (view st).recorded idx = some r →
    view (io.updateToSkipRest idx st) =
      (view st).setRecorded idx (some { r with status := toSkipRest r.status })
  /-- Nothing that matters happens. -/
  recordFinalizedGroup : ∀ idx groups st, view (io.recordFinalizedGroup idx groups st) = view st
  /-- Whether the rest of the block is to be skipped. -/
  blockSkipsRestAtIdx : ∀ idx st r, (view st).recorded idx = some r →
    io.blockSkipsRestAtIdx idx st = isSkipRest r.status
  /-- Nothing that matters happens. -/
  takeFinalizedGroup : ∀ idx st, view (io.takeFinalizedGroup idx st).2 = view st
  /-- Nothing that matters happens. -/
  takeResourceWriteSet : ∀ idx st, view (io.takeResourceWriteSet idx st).2 = view st
  /-- What was materialized is incorporated. -/
  recordMaterializedTxnOutput : ∀ idx deltaWrites writes events st st' r o,
    (view st).recorded idx = some r → r.status.output? = some o →
    io.recordMaterializedTxnOutput idx deltaWrites writes events st = (.ok (), st') →
    view st' = (view st).setMaterialized idx (.materialized o deltaWrites writes events)
  /-- The output is taken, with what was incorporated. -/
  takeOutput : ∀ idx st r final, (view st).recorded idx = some r →
    (view st).materialized idx = some final →
    (io.takeOutput idx st).1 = (r.status, final) ∧
      ∃ r', view (io.takeOutput idx st).2 = (view st).setRecorded idx r'

/-! ### All together -/

/-- What the executor relies on. -/
structure Components.Correct (C : Components S) (env : Env S) where
  /-- In the scheduler. -/
  scheduler : C.scheduler.Correct env.numTxns
  /-- In the captured reads. -/
  capturedReads : C.capturedReads.Correct
  /-- In the view. -/
  latestView : C.latestView.Correct scheduler.view capturedReads.captured
  /-- In the record. -/
  lastInputOutput : C.lastInputOutput.Correct env capturedReads.captured

end BlockStm

end Aptos

end RelayContracts
