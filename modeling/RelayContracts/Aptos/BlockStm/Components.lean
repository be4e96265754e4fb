import RelayContracts.Aptos.BlockExecutor

/-!
# What the parallel executor is built on

The workers of the parallel executor share a scheduler, a versioned cache and a record of inputs and
outputs, and the VM reads through a view that captures its reads. None of these is here: they are
other files of the crate, or other crates. So they are parameters, each a structure with a type of
states and the operations the executor calls. An operation is one step, of the state it is given;
only the view may also wait, for a transaction that is being executed.

What the executor relies on is said elsewhere (`Components.Correct`), with one hypothesis for each
operation.

## Main definitions

* `SchedulerTask`, `Scheduler`
* `MVHashMap`
* `CapturedReads`, `LatestView`
* `TxnLastInputOutput`
* `Components` — all of them
-/

namespace RelayContracts

namespace Aptos

namespace BlockStm

open BlockExecutor

/-- `TxnIndex`. -/
abbrev TxnIndex := ℕ

/-- `Incarnation`. -/
abbrev Incarnation := ℕ

/-! ### The scheduler -/

/-- `ExecutionTaskType`. -/
inductive ExecutionTaskType (Condvar : Type) where
  /-- A transaction is to be executed. -/
  | execution
  /-- A worker that waits is to be woken up. -/
  | wakeup (condvar : Condvar)

/-- `SchedulerTask`. -/
inductive SchedulerTask (Wave Condvar : Type) where
  /-- A transaction is to be executed, or a worker that waits in it to be woken up. -/
  | executionTask (idx : TxnIndex) (incarnation : Incarnation) (kind : ExecutionTaskType Condvar)
  /-- A transaction is to be validated. -/
  | validationTask (idx : TxnIndex) (incarnation : Incarnation) (wave : Wave)
  /-- There is nothing to do at present. -/
  | retry
  /-- There is nothing to do any more. -/
  | done

/-- `Scheduler`. -/
structure Scheduler where
  /-- Its states. -/
  State : Type
  /-- `Wave`. -/
  Wave : Type
  /-- What a worker waits on. -/
  Condvar : Type
  /-- `new(num_txns)`. -/
  new : ℕ → State
  /-- `next_task()`. -/
  nextTask : State → SchedulerTask Wave Condvar × State
  /-- `try_abort(txn_idx, incarnation)`. -/
  tryAbort : TxnIndex → Incarnation → State → Bool × State
  /-- `finish_abort(txn_idx, incarnation)`. -/
  finishAbort : TxnIndex → Incarnation → State → Except String (SchedulerTask Wave Condvar) × State
  /-- `finish_validation(txn_idx, wave)`. -/
  finishValidation : TxnIndex → Wave → State → State
  /-- `finish_execution(txn_idx, incarnation, updates_outside)`. -/
  finishExecution : TxnIndex → Incarnation → Bool → State →
    Except String (SchedulerTask Wave Condvar) × State
  /-- `finish_execution_during_commit(txn_idx)`. -/
  finishExecutionDuringCommit : TxnIndex → State → Except String Unit × State
  /-- `try_commit()`. -/
  tryCommit : State → Option (TxnIndex × Incarnation) × State
  /-- `should_coordinate_commits()`. -/
  shouldCoordinateCommits : State → Bool × State
  /-- `queueing_commits_arm()`. -/
  queueingCommitsArm : State → State
  /-- `queueing_commits_mark_done()`. -/
  queueingCommitsMarkDone : State → State
  /-- `add_to_commit_queue(txn_idx)`. -/
  addToCommitQueue : TxnIndex → State → State
  /-- `pop_from_commit_queue()`. -/
  popFromCommitQueue : State → Option TxnIndex × State
  /-- `halt()`. -/
  halt : State → State
  /-- The dependency is marked as resolved, and who waits for it is notified. -/
  notifyOne : Condvar → State → State
  [decWave : DecidableEq Wave]

attribute [instance] Scheduler.decWave

/-! ### The versioned cache -/

/-- What `record_change` fails with: `PanicOr<MVDelayedFieldsError>`. -/
inductive RecordChangeError where
  /-- `PanicOr::CodeInvariantError`. -/
  | codeInvariantError (msg : String)
  /-- `PanicOr::Or`. -/
  | delayedFieldsError

/-- `CommitError`. -/
inductive CommitError where
  /-- `ReExecutionNeeded`. -/
  | reExecutionNeeded
  /-- `CodeInvariantError`. -/
  | codeInvariantError (msg : String)

/-- `MVHashMap`, with `data()`, `group_data()`, `modules()` and `delayed_fields()`. -/
structure MVHashMap (S : Sig) where
  /-- Its states. -/
  State : Type
  /-- `new()`. -/
  new : State
  /-- `data().write(key, txn_idx, incarnation, value)`. -/
  write : S.Key → TxnIndex → Incarnation → S.Value → State → State
  /-- `data().add_delta(key, txn_idx, delta)`. -/
  addDelta : S.Key → TxnIndex → S.DeltaOp → State → State
  /-- `data().remove(key, txn_idx)`. -/
  remove : S.Key → TxnIndex → State → State
  /-- `data().mark_estimate(key, txn_idx)`. -/
  markEstimate : S.Key → TxnIndex → State → State
  /-- `data().materialize_delta(key, txn_idx)`: the value, or the delta to apply to what is in
  storage. It panics where a delta does not apply. -/
  materializeDelta : S.Key → TxnIndex → State → Option (Except S.DeltaOp S.Value) × State
  /-- `data().set_base_value(key, value)`. -/
  setBaseValue : S.Key → S.Value → State → State
  /-- `data().fetch_exchanged_data(key, txn_idx)`, as `resource_writes_to_materialize!` calls it. -/
  fetchExchangedData : S.Key → TxnIndex → State → S.Value
  /-- `modules().write(key, txn_idx, value)`. -/
  writeModule : S.Key → TxnIndex → S.Value → State → State
  /-- `modules().remove(key, txn_idx)`. -/
  removeModule : S.Key → TxnIndex → State → State
  /-- `modules().mark_estimate(key, txn_idx)`. -/
  markEstimateModule : S.Key → TxnIndex → State → State
  /-- `group_data().write(key, txn_idx, incarnation, ops)`, which says whether a resource was
  written that was not before. -/
  writeGroup : S.Key → TxnIndex → Incarnation → List (S.Tag × S.Value) → State → Bool × State
  /-- `group_data().remove(key, txn_idx)`. -/
  removeGroup : S.Key → TxnIndex → State → State
  /-- `group_data().mark_estimate(key, txn_idx)`. -/
  markEstimateGroup : S.Key → TxnIndex → State → State
  /-- `group_data().finalize_group(key, txn_idx)`. -/
  finalizeGroup : S.Key → TxnIndex → State → Except String (Group S) × State
  /-- `group_data().get_last_committed_group(key)`. -/
  getLastCommittedGroup : S.Key → State → Except String (Group S)
  /-- `delayed_fields().record_change(id, txn_idx, change)`. -/
  recordChange : S.Identifier → TxnIndex → DelayedChange S → State →
    Except RecordChangeError Unit × State
  /-- `delayed_fields().remove(id, txn_idx)`. -/
  removeDelayedField : S.Identifier → TxnIndex → State → State
  /-- `delayed_fields().mark_estimate(id, txn_idx)`. -/
  markEstimateDelayedField : S.Identifier → TxnIndex → State → State
  /-- `delayed_fields().try_commit(txn_idx, ids)`. -/
  tryCommit : TxnIndex → List S.Identifier → State → Except CommitError Unit × State

/-! ### The view of the VM -/

/-- `CapturedReads`, over the states of a cache. -/
structure CapturedReads (S : Sig) (Cache : Type) where
  /-- A set of reads. -/
  ReadSet : Type
  /-- Nothing was read. -/
  new : ReadSet
  /-- `capture_delayed_field_read_error`. -/
  captureDelayedFieldReadError : ReadSet → ReadSet
  /-- `is_incorrect_use()`. -/
  isIncorrectUse : ReadSet → Bool
  /-- The reads that `validate_data_reads` makes again, one after another. -/
  dataReads : ReadSet → List (Request S × Answer S)
  /-- The reads that `validate_group_reads` makes again, one after another. -/
  groupReads : ReadSet → List (Request S × Answer S)
  /-- One of these reads by a transaction is made again, and finds what it found. -/
  validateRead : Request S × Answer S → TxnIndex → Cache → Bool
  /-- `validate_delayed_field_reads(delayed_fields, txn_idx)`. -/
  validateDelayedFieldReads : ReadSet → TxnIndex → Cache → Except String Bool

/-- What a `ParallelState` has: the scheduler, the cache and the counter for identifiers. -/
structure ParallelState (Sched Cache : Type) where
  /-- `scheduler`. -/
  scheduler : Sched
  /-- `versioned_map`. -/
  versionedMap : Cache
  /-- `shared_counter`, less `start_shared_counter`. -/
  sharedCounter : ℕ

/-- `LatestView`, over a `ParallelState`. -/
structure LatestView (S : Sig) (Sched Cache ReadSet : Type) where
  /-- The VM asks for something in the execution of a transaction: the answer, and the reads that
  are captured then. It waits where the answer depends on a transaction that is being executed. -/
  read : TxnIndex → Request S → ReadSet → ParallelState Sched Cache →
    Option ((Answer S × ReadSet) × ParallelState Sched Cache)
  /-- The delayed fields that are seen when the output of a transaction is materialized. -/
  delayedFields : TxnIndex → ParallelState Sched Cache → DelayedFields S

/-! ### The record of inputs and outputs -/

/-- `TxnLastInputOutput`. -/
structure TxnLastInputOutput (S : Sig) (ReadSet : Type) where
  /-- Its states. -/
  State : Type
  /-- `new(num_txns)`. -/
  new : ℕ → State
  /-- `record(txn_idx, read_set, result, resource_write_set)`. It says whether no module was both
  read and written. -/
  record : TxnIndex → ReadSet → ExecutionStatus S → List (S.Key × S.Value) → State → Bool × State
  /-- `read_set(txn_idx)`. -/
  readSet : TxnIndex → State → Option ReadSet
  /-- `modified_keys(txn_idx)`. -/
  modifiedKeys : TxnIndex → State → Option (List (S.Key × KeyKind))
  /-- `delayed_field_keys(txn_idx)`. -/
  delayedFieldKeys : TxnIndex → State → Option (List S.Identifier)
  /-- `check_fatal_vm_error(txn_idx)`. -/
  checkFatalVmError : TxnIndex → State → Except S.Error Unit
  /-- `check_execution_status_during_commit(txn_idx)`. -/
  checkExecutionStatusDuringCommit : TxnIndex → State → Except String Unit
  /-- `fee_statement(txn_idx)`, and what `accumulate_fee_statement` makes of it, of
  `output_approx_size(txn_idx)` and of `get_txn_read_write_summary(txn_idx)`. -/
  feeStatement : TxnIndex → State → Option (S.Limit → S.Limit)
  /-- `update_to_skip_rest(txn_idx)`. -/
  updateToSkipRest : TxnIndex → State → State
  /-- `groups_to_finalize!`, of what is recorded. -/
  groupsToFinalize : TxnIndex → State → List (S.Key × S.Value × Bool)
  /-- `record_finalized_group(txn_idx, finalized_groups)`. -/
  recordFinalizedGroup : TxnIndex → List (FinalizedGroup S) → State → State
  /-- `block_skips_rest_at_idx(txn_idx)`. -/
  blockSkipsRestAtIdx : TxnIndex → State → Bool
  /-- `take_finalized_group(txn_idx)`. -/
  takeFinalizedGroup : TxnIndex → State → List (FinalizedGroup S) × State
  /-- `take_resource_write_set(txn_idx)`. -/
  takeResourceWriteSet : TxnIndex → State → List (S.Key × S.Value) × State
  /-- `reads_needing_delayed_field_exchange(txn_idx)`. -/
  readsNeedingDelayedFieldExchange : TxnIndex → State → List (S.Key × S.Metadata)
  /-- `events(txn_idx)`. -/
  events : TxnIndex → State → List S.Event
  /-- `aggregator_v1_delta_keys(txn_idx)`. -/
  aggregatorV1DeltaKeys : TxnIndex → State → List S.Key
  /-- `record_materialized_txn_output(txn_idx, delta_writes, writes, events)`. -/
  recordMaterializedTxnOutput : TxnIndex → List (S.Key × S.Value) → List (S.Key × S.Value) →
    List S.Event → State → Except String Unit × State
  /-- `take_output(txn_idx)`: the status, and the output with what was incorporated into it. -/
  takeOutput : TxnIndex → State → (ExecutionStatus S × Final S) × State

/-- All of them. -/
structure Components (S : Sig) where
  /-- `scheduler`. -/
  scheduler : Scheduler
  /-- `versioned_cache`. -/
  versionedCache : MVHashMap S
  /-- The reads of an execution. -/
  capturedReads : CapturedReads S versionedCache.State
  /-- The view of the VM. -/
  latestView : LatestView S scheduler.State versionedCache.State capturedReads.ReadSet
  /-- `last_input_output`. -/
  lastInputOutput : TxnLastInputOutput S capturedReads.ReadSet

namespace Components

variable {S : Sig} (C : Components S)

/-- A set of captured reads. -/
abbrev ReadSet := C.capturedReads.ReadSet

/-- A task of the scheduler. -/
abbrev Task := SchedulerTask C.scheduler.Wave C.scheduler.Condvar

end Components

end BlockStm

end Aptos

end RelayContracts
