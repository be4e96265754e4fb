import RelayContracts.Aptos.BlockStm.Components
import RelayContracts.Interleaving

/-!
# The block executor, in parallel

The parallel executor runs the transactions of a block on several workers. A worker executes a
transaction: the VM reads through the cache, and then its writes are put there one after another, in
place of those of the transaction's earlier incarnation; what is not overwritten is removed. A
worker validates a transaction: each of its reads is made again and has to find what it found. If
not, the writes of the transaction are marked as estimates and it is executed again. Transactions
are committed in the order of the block, by one worker at a time, and what a commit leaves to do is
materialized by any worker at any later time.

The functions here are those of the source. Each is a program (`Interleaving`) whose steps are the
calls of what the workers share, so that the steps of different workers come in any order. `?` ends
a worker with an error: that there was one is what `shared_maybe_error` says. An assertion that
fails ends it too; after a panic nothing is returned. The loops of `worker_loop` are cut where they
begin: a `Label` names the place from which a worker goes on, with the task it has at hand.

Left out are the commit hook, counters, timers, logging and fail points.

## Main definitions

* `execute`, `validate`, `updateTransactionOnAbort`, `updateOnValidation`
* `validateCommitReady`, `prepareAndQueue` — commits
* `materializeTxnCommit` — what a commit leaves to do
* `workerLoop` — a worker
* `Returns` — what `execute_transactions_parallel` may return
-/

namespace RelayContracts

namespace Aptos

namespace BlockStm

open BlockExecutor Interleaving

variable {S : Sig}

/-- What the workers share. -/
structure Shared (C : Components S) where
  /-- `scheduler`. -/
  scheduler : C.scheduler.State
  /-- `versioned_cache`. -/
  versionedCache : C.versionedCache.State
  /-- `last_input_output`. -/
  lastInputOutput : C.lastInputOutput.State
  /-- `shared_counter`, less `start_shared_counter`. -/
  sharedCounter : ℕ
  /-- `shared_commit_state`. -/
  sharedCommitState : S.Limit
  /-- `final_results`. -/
  finalResults : List (Final S)

/-- `ParallelBlockExecutionError`. -/
inductive ParallelBlockExecutionError (S : Sig) where
  /-- `ModulePathReadWriteError`. -/
  | modulePathReadWriteError
  /-- `FatalVMError`. -/
  | fatalVmError (e : S.Error)

/-- Why a worker does not go on. -/
inductive Fault (S : Sig) where
  /-- `PanicOr::CodeInvariantError`. -/
  | codeInvariantError (msg : String)
  /-- `PanicOr::Or`. -/
  | parallelError (e : ParallelBlockExecutionError S)
  /-- A panic. -/
  | panic

/-- What a worker does. -/
abbrev Worker (C : Components S) (α : Type) := ExceptT (Fault S) (Prog (Shared C)) α

/-! ### Calls -/

section Calls

variable {C : Components S} {α : Type}

/-- One step on what is shared. -/
def step (f : Shared C → α × Shared C) : Worker C α :=
  ExceptT.lift (Prog.call fun st => some (f st))

/-- A call of the scheduler. -/
def onScheduler (f : C.scheduler.State → α × C.scheduler.State) : Worker C α :=
  step fun st => ((f st.scheduler).1, { st with scheduler := (f st.scheduler).2 })

/-- A call of the versioned cache. -/
def onCache (f : C.versionedCache.State → α × C.versionedCache.State) : Worker C α :=
  step fun st => ((f st.versionedCache).1, { st with versionedCache := (f st.versionedCache).2 })

/-- A call of the record of inputs and outputs. -/
def onRecord (f : C.lastInputOutput.State → α × C.lastInputOutput.State) : Worker C α :=
  step fun st => ((f st.lastInputOutput).1, { st with lastInputOutput := (f st.lastInputOutput).2 })

/-- A call that returns nothing. -/
def noValue {σ : Type} (f : σ → σ) (st : σ) : Unit × σ := ((), f st)

/-- A call that changes nothing. -/
def reading {σ : Type} (f : σ → α) (st : σ) : α × σ := (f st, st)

/-- What a `LatestView` is made over. -/
def Shared.parallelState (st : Shared C) :
    ParallelState C.scheduler.State C.versionedCache.State :=
  ⟨st.scheduler, st.versionedCache, st.sharedCounter⟩

/-- A read of the VM, in the execution of a transaction. -/
def viewRead (idx : TxnIndex) (q : Request S) (reads : C.ReadSet) :
    Worker C (Answer S × C.ReadSet) :=
  ExceptT.lift (Prog.call fun st => (C.latestView.read idx q reads st.parallelState).map fun p =>
    (p.1, { st with scheduler := p.2.scheduler, versionedCache := p.2.versionedMap
                    sharedCounter := p.2.sharedCounter }))

/-- `?`, on a `PanicError`. -/
def orError : Except String α → Worker C α
  | .ok a => pure a
  | .error msg => throw (.codeInvariantError msg)

/-- `expect`, or `unwrap`. -/
def expect : Option α → Worker C α
  | some a => pure a
  | none => throw .panic

/-- `if`, without `else`. -/
def onlyIf (b : Bool) (p : Worker C Unit) : Worker C Unit := if b then p else pure ()

end Calls

/-! ### Execution -/

section Execution

variable (C : Components S)

/-- `execute_transaction`: the VM, with the reads that are captured. -/
def executeTransaction (idx : TxnIndex) :
    Vm S → C.ReadSet → Worker C (ExecutionStatus S × C.ReadSet)
  | .done status, reads => pure (status, reads)
  | .read q next, reads => do
    let (answer, reads) ← viewRead idx q reads
    executeTransaction idx (next answer) reads

/-- The variables that `apply_updates` changes. -/
structure Updates where
  /-- `prev_modified_keys`. -/
  prevModifiedKeys : List (S.Key × KeyKind)
  /-- `prev_modified_delayed_fields`. -/
  prevModifiedDelayedFields : List S.Identifier
  /-- `updates_outside`. -/
  updatesOutside : Bool
  /-- `read_set`. -/
  readSet : C.ReadSet

variable {C}

/-- `if prev_modified_keys.remove(&k).is_none() { updates_outside = true }`. -/
def Updates.removeKey (u : Updates C) (k : S.Key) : Updates C :=
  { u with
    prevModifiedKeys := u.prevModifiedKeys.filter (·.1 ≠ k)
    updatesOutside := u.updatesOutside || !u.prevModifiedKeys.any (·.1 = k) }

variable (C)

/-- The writes to a resource group. -/
def applyGroup (idx : TxnIndex) (incarnation : Incarnation) (u : Updates C) (g : GroupWrite S) :
    Worker C (Updates C) := do
  let u := u.removeKey g.key
  onCache (noValue (C.versionedCache.write g.key idx incarnation g.metadataOp))
  let outside ← onCache (C.versionedCache.writeGroup g.key idx incarnation g.ops)
  pure { u with updatesOutside := u.updatesOutside || outside }

/-- The write to a resource, or to an aggregator. -/
def applyWrite (idx : TxnIndex) (incarnation : Incarnation) (u : Updates C)
    (w : S.Key × S.Value) : Worker C (Updates C) := do
  onCache (noValue (C.versionedCache.write w.1 idx incarnation w.2))
  pure (u.removeKey w.1)

/-- The write to a module. -/
def applyModule (idx : TxnIndex) (u : Updates C) (w : S.Key × S.Value) :
    Worker C (Updates C) := do
  onCache (noValue (C.versionedCache.writeModule w.1 idx w.2))
  pure (u.removeKey w.1)

/-- A delta. -/
def applyDelta (idx : TxnIndex) (u : Updates C) (w : S.Key × S.DeltaOp) :
    Worker C (Updates C) := do
  onCache (noValue (C.versionedCache.addDelta w.1 idx w.2))
  pure (u.removeKey w.1)

/-- A change to a delayed field. -/
def applyChange (idx : TxnIndex) (u : Updates C) (w : S.Identifier × DelayedChange S) :
    Worker C (Updates C) := do
  let u := { u with prevModifiedDelayedFields := u.prevModifiedDelayedFields.filter (· ≠ w.1) }
  match ← onCache (C.versionedCache.recordChange w.1 idx w.2) with
  | .ok () => pure u
  | .error (.codeInvariantError m) =>
    throw (.codeInvariantError s!"Record change failed with CodeInvariantError: {repr m}")
  | .error .delayedFieldsError =>
    pure { u with readSet := C.capturedReads.captureDelayedFieldReadError u.readSet }

/-- `apply_updates`. -/
def applyUpdates (idx : TxnIndex) (incarnation : Incarnation) (o : Output S) (u : Updates C) :
    Worker C (Updates C) := do
  let u ← o.resourceGroupWriteSet.foldlM (applyGroup C idx incarnation) u
  let u ← (o.resourceWriteSet ++ o.aggregatorV1WriteSet).foldlM (applyWrite C idx incarnation) u
  let u ← o.moduleWriteSet.foldlM (applyModule C idx) u
  let u ← o.aggregatorV1DeltaSet.foldlM (applyDelta C idx) u
  o.delayedFieldChangeSet.foldlM (applyChange C idx) u

/-- What is done with the result of the VM: the variables after it, and the resource writes to be
recorded. -/
def applyResult (idx : TxnIndex) (incarnation : Incarnation) (u : Updates C) :
    ExecutionStatus S → Worker C (Updates C × List (S.Key × S.Value))
  | .success o => do
    let u ← applyUpdates C idx incarnation o u
    pure (u, o.resourceWriteSet)
  | .skipRest o => do
    let u ← applyUpdates C idx incarnation o u
    pure (u, o.resourceWriteSet)
  | .speculativeExecutionAbortError _ =>
    pure ({ u with readSet := C.capturedReads.captureDelayedFieldReadError u.readSet }, [])
  | .abort _ => pure (u, [])
  | .delayedFieldsCodeInvariantError msg =>
    throw (.codeInvariantError
      s!"[Execution] At txn {idx}, failed with DelayedFieldsCodeInvariantError: {repr msg}")

/-- An entry of the previous write set that was not overwritten is removed. -/
def removeKey (idx : TxnIndex) : S.Key × KeyKind → Worker C Unit
  | (k, .resource) => onCache (noValue (C.versionedCache.remove k idx))
  | (k, .modulePath) => onCache (noValue (C.versionedCache.removeModule k idx))
  | (k, .group) => do
    onCache (noValue (C.versionedCache.remove k idx))
    onCache (noValue (C.versionedCache.removeGroup k idx))

variable (env : Env S)

/-- `execute`. -/
def execute (idx : TxnIndex) (incarnation : Incarnation) : Worker C Bool := do
  let vm ← expect env.block[idx]?
  let (result, reads) ← executeTransaction C idx vm C.capturedReads.new
  let prevModifiedKeys ← onRecord (reading (C.lastInputOutput.modifiedKeys idx))
  let prevModifiedDelayedFields ← onRecord (reading (C.lastInputOutput.delayedFieldKeys idx))
  let (u, resourceWriteSet) ← applyResult C idx incarnation
    ⟨prevModifiedKeys.getD [], prevModifiedDelayedFields.getD [], false, reads⟩ result
  u.prevModifiedKeys.forM (removeKey C idx)
  u.prevModifiedDelayedFields.forM fun id =>
    onCache (noValue (C.versionedCache.removeDelayedField id idx))
  if ← onRecord (C.lastInputOutput.record idx u.readSet result resourceWriteSet) then
    pure u.updatesOutside
  else throw (.parallelError .modulePathReadWriteError)

/-! ### Validation -/

/-- Reads of a transaction are made again, up to one that finds something else. -/
def validateReads (idx : TxnIndex) : List (Request S × Answer S) → Worker C Bool
  | [] => pure true
  | r :: reads => do
    if ← onCache (reading (C.capturedReads.validateRead r idx)) then validateReads idx reads
    else pure false

/-- `validate`. -/
def validate (idx : TxnIndex) : Worker C Bool := do
  let readSet ← expect (← onRecord (reading (C.lastInputOutput.readSet idx)))
  if C.capturedReads.isIncorrectUse readSet then
    throw (.codeInvariantError "Incorrect use detected in CapturedReads")
  else if ← validateReads C idx (C.capturedReads.dataReads readSet) then
    validateReads C idx (C.capturedReads.groupReads readSet)
  else pure false

/-- A key that was modified is marked as an estimate. -/
def markEstimate (idx : TxnIndex) : S.Key × KeyKind → Worker C Unit
  | (k, .resource) => onCache (noValue (C.versionedCache.markEstimate k idx))
  | (k, .modulePath) => onCache (noValue (C.versionedCache.markEstimateModule k idx))
  | (k, .group) => do
    onCache (noValue (C.versionedCache.markEstimate k idx))
    onCache (noValue (C.versionedCache.markEstimateGroup k idx))

/-- `update_transaction_on_abort`. -/
def updateTransactionOnAbort (idx : TxnIndex) : Worker C Unit := do
  let keys ← onRecord (reading (C.lastInputOutput.modifiedKeys idx))
  (keys.getD []).forM (markEstimate C idx)
  let ids ← onRecord (reading (C.lastInputOutput.delayedFieldKeys idx))
  (ids.getD []).forM fun id =>
    onCache (noValue (C.versionedCache.markEstimateDelayedField id idx))

/-- `!valid && scheduler.try_abort(txn_idx, incarnation)`. -/
def tryAbort (idx : TxnIndex) (incarnation : Incarnation) (valid : Bool) : Worker C Bool :=
  if valid then pure false else onScheduler (C.scheduler.tryAbort idx incarnation)

/-- `update_on_validation`. -/
def updateOnValidation (idx : TxnIndex) (incarnation : Incarnation) (valid : Bool)
    (wave : C.scheduler.Wave) : Worker C C.Task := do
  if ← tryAbort C idx incarnation valid then
    updateTransactionOnAbort C idx
    orError (← onScheduler (C.scheduler.finishAbort idx incarnation))
  else
    onScheduler (noValue (C.scheduler.finishValidation idx wave))
    onlyIf valid (onScheduler (noValue C.scheduler.queueingCommitsArm))
    pure .retry

/-! ### Commits -/

/-- `try_commit` of the delayed fields, and whether the execution is still valid. -/
def tryCommitDelayedFields (idx : TxnIndex) : Option (List S.Identifier) → Worker C Bool
  | none => pure true
  | some ids => do
    match ← onCache (C.versionedCache.tryCommit idx ids) with
    | .ok () => pure true
    | .error .reExecutionNeeded => pure false
    | .error (.codeInvariantError msg) => throw (.codeInvariantError msg)

/-- `validate_commit_ready`. -/
def validateCommitReady (idx : TxnIndex) : Worker C Bool := do
  let readSet ← expect (← onRecord (reading (C.lastInputOutput.readSet idx)))
  if ← orError (← onCache (reading (C.capturedReads.validateDelayedFieldReads readSet idx))) then
    tryCommitDelayedFields C idx (← onRecord (reading (C.lastInputOutput.delayedFieldKeys idx)))
  else pure false

/-- `unwrap_or(false)`, on a `PanicError`. -/
def unwrapOrFalse (p : Worker C Bool) : Worker C Bool := do
  match ← ExceptT.lift p.run with
  | .ok b => pure b
  | .error .panic => throw .panic
  | .error _ => pure false

/-- A transaction is executed one final time, in the middle of its commit. -/
def reExecute (idx : TxnIndex) (incarnation : Incarnation) : Worker C Unit := do
  updateTransactionOnAbort C idx
  let _updatesOutside ← execute C env idx (incarnation + 1)
  orError (← onScheduler (C.scheduler.finishExecutionDuringCommit idx))
  let validationResult ← validate C idx
  let ready ← if validationResult then unwrapOrFalse C (validateCommitReady C idx) else pure false
  if ready then pure ()
  else throw (.codeInvariantError
    s!"Validation after re-execution failed for {idx} txn, validate() = {validationResult}")

/-- `check_fatal_vm_error`, and `check_execution_status_during_commit`. -/
def checkStatus (idx : TxnIndex) : Worker C Unit := do
  match ← onRecord (reading (C.lastInputOutput.checkFatalVmError idx)) with
  | .ok () =>
    orError (← onRecord (reading (C.lastInputOutput.checkExecutionStatusDuringCommit idx)))
  | .error e => throw (.parallelError (.fatalVmError e))

/-- The gas costs are accumulated, and the rest of the block is skipped if it is full. -/
def accumulateFee (idx : TxnIndex) : Worker C Unit := do
  match ← onRecord (reading (C.lastInputOutput.feeStatement idx)) with
  | none => pure ()
  | some accumulate =>
    let limit ← step fun st =>
      (accumulate st.sharedCommitState,
        { st with sharedCommitState := accumulate st.sharedCommitState })
    onlyIf (idx < env.numTxns - 1 && env.shouldEndBlockParallel limit)
      (onRecord (noValue (C.lastInputOutput.updateToSkipRest idx)))

/-- One group is finalized, and passed on by `map_finalized_group`. -/
def finalizeOne (idx : TxnIndex) (groups : List (FinalizedGroup S)) (g : S.Key × S.Value × Bool) :
    Worker C (List (FinalizedGroup S)) := do
  let group ← orError (← if g.2.2 then
      onCache (reading (C.versionedCache.getLastCommittedGroup g.1))
    else onCache (C.versionedCache.finalizeGroup g.1 idx))
  orError (noError (env.finalizedGroupError g.1 group g.2.1 g.2.2))
  pure (groups ++ [⟨g.1, g.2.1, group⟩])

/-- `finalized_groups`. -/
def finalizedGroups (idx : TxnIndex) : Worker C (List (FinalizedGroup S)) := do
  let groups ← onRecord (reading (C.lastInputOutput.groupsToFinalize idx))
  groups.foldlM (finalizeOne C env idx) []

/-- "All transactions can be committed, can't have execution task". -/
def assertNoExecutionTask (idx : TxnIndex) : C.Task → Worker C Unit
  | .executionTask .. => onlyIf (idx + 1 = env.numTxns) (throw .panic)
  | _ => pure ()

/-- A round of the loop of `prepare_and_queue_commit_ready_txns`, with the task that the worker has
at hand: whether the loop goes on. The transaction is queued when the round is left. -/
def prepareAndQueue (task : C.Task) (idx : TxnIndex) (incarnation : Incarnation) :
    Worker C Bool := do
  let ready ← validateCommitReady C idx
  onlyIf (!ready) (reExecute C env idx incarnation)
  checkStatus C idx
  accumulateFee C env idx
  let groups ← finalizedGroups C env idx
  onRecord (noValue (C.lastInputOutput.recordFinalizedGroup idx groups))
  let skipsRest ← onRecord (reading (C.lastInputOutput.blockSkipsRestAtIdx idx))
  if idx + 1 = env.numTxns || skipsRest then
    assertNoExecutionTask C env idx task
    onScheduler (noValue C.scheduler.halt)
    onScheduler (noValue (C.scheduler.addToCommitQueue idx))
    pure false
  else
    onScheduler (noValue (C.scheduler.addToCommitQueue idx))
    pure true

/-! ### Materialization -/

/-- The value of one aggregator. -/
def materializeDelta (idx : TxnIndex) (k : S.Key) : Worker C S.Value := do
  match ← expect (← onCache (C.versionedCache.materializeDelta k idx)) with
  | .ok v => pure v
  | .error op =>
    onCache (noValue (C.versionedCache.setBaseValue k (env.base (.data k))))
    expect (env.applyDelta op (env.base (.data k)))

/-- `materialize_aggregator_v1_delta_writes`. -/
def materializeAggregatorV1DeltaWrites (idx : TxnIndex) : Worker C (List (S.Key × S.Value)) := do
  let keys ← onRecord (reading (C.lastInputOutput.aggregatorV1DeltaKeys idx))
  keys.foldlM (fun writes k => do
    let v ← materializeDelta C env idx k
    pure (writes ++ [(k, v)])) []

/-- The delayed fields, through a `LatestView`. -/
def delayedFields (idx : TxnIndex) : Worker C (DelayedFields S) :=
  step (reading fun st => C.latestView.delayedFields idx st.parallelState)

/-- The groups of a committed transaction, serialized. -/
def serializedGroups (idx : TxnIndex) : Worker C (List (S.Key × S.Value)) := do
  let groups ← onRecord (C.lastInputOutput.takeFinalizedGroup idx)
  let groups ← orError (mapIdToValuesInGroupWrites env (← delayedFields C idx) groups)
  match serializeGroups env groups with
  | some serialized => pure serialized
  | none => throw (.codeInvariantError "Panic error in serializing groups")

/-- The resource writes of a committed transaction, materialized. The values in the cache are taken
in one step: those of a committed transaction do not change any more. -/
def materializedResourceWriteSet (idx : TxnIndex) : Worker C (List (S.Key × S.Value)) := do
  let writes ← onRecord (C.lastInputOutput.takeResourceWriteSet idx)
  let reads ← onRecord (reading (C.lastInputOutput.readsNeedingDelayedFieldExchange idx))
  let data ← onCache (reading fun st k => C.versionedCache.fetchExchangedData k idx st)
  let resources ← orError (env.resourceWritesToMaterialize writes reads data)
  orError (env.mapIdToValuesInWriteSet (← delayedFields C idx) resources)

/-- The events of a committed transaction, materialized. -/
def materializedEvents (idx : TxnIndex) : Worker C (List S.Event) := do
  let events ← onRecord (reading (C.lastInputOutput.events idx))
  orError (env.mapIdToValuesEvents (← delayedFields C idx) events)

/-- `final_results[txn_idx] = ..`. -/
def storeResult (idx : TxnIndex) : ExecutionStatus S × Final S → Worker C Unit
  | (.success _, t) => step (noValue fun st =>
      { st with finalResults := st.finalResults.set idx t })
  | (.skipRest _, t) => step (noValue fun st =>
      { st with finalResults := st.finalResults.set idx t })
  | (.abort _, _) => pure ()
  | (.speculativeExecutionAbortError _, _) => throw .panic
  | (.delayedFieldsCodeInvariantError _, _) => throw .panic

/-- `materialize_txn_commit`. -/
def materializeTxnCommit (idx : TxnIndex) : Worker C Unit := do
  let groups ← serializedGroups C env idx
  let resources ← materializedResourceWriteSet C env idx
  let events ← materializedEvents C env idx
  let deltaWrites ← materializeAggregatorV1DeltaWrites C env idx
  orError (← onRecord (C.lastInputOutput.recordMaterializedTxnOutput idx deltaWrites
    (resources ++ groups) events))
  storeResult C idx (← onRecord (C.lastInputOutput.takeOutput idx))

/-! ### The worker loop -/

/-- From where a worker goes on. -/
inductive Label where
  /-- `while scheduler.should_coordinate_commits()`. -/
  | coordinate (task : C.Task)
  /-- `while let Some(..) = scheduler.try_commit()`. -/
  | prepareAndQueue (task : C.Task)
  /-- `drain_commit_queue()`. -/
  | drainCommitQueue (task : C.Task)
  /-- `match scheduler_task`. -/
  | work (task : C.Task)
  /-- `drain_commit_queue()`, for the last time. -/
  | done

/-- `match scheduler_task`: the next task, unless the worker is done. -/
def runTask : C.Task → Worker C (Option (Label C))
  | .validationTask idx incarnation wave => do
    let valid ← validate C idx
    let task ← updateOnValidation C idx incarnation valid wave
    pure (some (.coordinate task))
  | .executionTask idx incarnation .execution => do
    let updatesOutside ← execute C env idx incarnation
    let task ← orError (← onScheduler (C.scheduler.finishExecution idx incarnation updatesOutside))
    pure (some (.coordinate task))
  | .executionTask _ _ (.wakeup condvar) => do
    onScheduler (noValue (C.scheduler.notifyOne condvar))
    let task ← onScheduler C.scheduler.nextTask
    pure (some (.coordinate task))
  | .retry => do
    let task ← onScheduler C.scheduler.nextTask
    pure (some (.coordinate task))
  | .done => pure (some .done)

/-- `worker_loop`, from one label to the next. -/
def workerLoop : Label C → Worker C (Option (Label C))
  | .coordinate task => do
    if ← onScheduler C.scheduler.shouldCoordinateCommits then pure (some (.prepareAndQueue task))
    else pure (some (.drainCommitQueue task))
  | .prepareAndQueue task => do
    let goOn ← match ← onScheduler C.scheduler.tryCommit with
      | some (idx, incarnation) => prepareAndQueue C env task idx incarnation
      | none => pure false
    if goOn then pure (some (.prepareAndQueue task))
    else
      onScheduler (noValue C.scheduler.queueingCommitsMarkDone)
      pure (some (.coordinate task))
  | .drainCommitQueue task => do
    match ← onScheduler C.scheduler.popFromCommitQueue with
    | some idx =>
      materializeTxnCommit C env idx
      pure (some (.drainCommitQueue task))
    | none => pure (some (.work task))
  | .work task => runTask C env task
  | .done => do
    match ← onScheduler C.scheduler.popFromCommitQueue with
    | some idx =>
      materializeTxnCommit C env idx
      pure (some .done)
    | none => pure none

/-- What is done after an error of a worker: the scheduler is halted. After a panic nothing is. -/
def onError : Fault S → Prog (Shared C) (Except (Fault S) (Option (Label C)))
  | .panic => .act (fun _ => (none : Option (Unit × Shared C))) fun _ => .done (.ok none)
  | _ => (do
    onScheduler (noValue C.scheduler.halt)
    pure none : Worker C (Option (Label C))).run

/-- What the workers run. -/
def programs : Programs (Shared C) (Label C) (Fault S) where
  program := workerLoop C env
  onError := onError C

/-! ### `execute_transactions_parallel` -/

/-- What the workers share at the beginning. -/
def Shared.init : Shared C where
  scheduler := C.scheduler.new env.numTxns
  versionedCache := C.versionedCache.new
  lastInputOutput := C.lastInputOutput.new env.numTxns
  sharedCounter := 0
  sharedCommitState := env.newLimit
  finalResults := List.replicate env.numTxns .skipOutput

/-- The workers at the beginning. -/
def start (concurrencyLevel : ℕ) :
    Config (Fin concurrencyLevel) (Shared C) (Label C) (Fault S) where
  shared := Shared.init C env
  thread := fun _ => .done (.ok (some (.coordinate .retry)))
  failed := false

/-- What `execute_transactions_parallel` may return. -/
inductive Returns (concurrencyLevel : ℕ) : Option (List (Final S)) → Prop
  /-- There is nothing to do. -/
  | empty (hblock : env.block = []) (hlevel : 1 < concurrencyLevel) :
      Returns concurrencyLevel (some [])
  /-- The workers have come to their end. -/
  | finished {c : Config (Fin concurrencyLevel) (Shared C) (Label C) (Fault S)}
      (hblock : env.block ≠ []) (hlevel : 1 < concurrencyLevel)
      (hreach : Reachable (programs C env) (start C env concurrencyLevel) c)
      (hend : ∀ w, c.thread w = .done (.ok none)) :
      Returns concurrencyLevel (if c.failed then none else some c.shared.finalResults)

end Execution

end BlockStm

end Aptos

end RelayContracts
