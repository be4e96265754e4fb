import RelayContracts.Aptos.BlockStm.Contract

/-!
# Components that keep the contract

What rolling commits rely on can be had: these components keep the contract, for every block and
with any cache. They are simple rather than fast. The scheduler hands out the first transaction that
is to be executed, or else the first one that is to be validated; after each execution and each
abort all validations have to be made anew.

## Main definitions

* `ReferenceScheduler.scheduler`, `ReferenceRecord.lastInputOutput`
* `reference` — the components, over a cache, a way to read in it and a way to check a read

## Main results

* `reference_correct` — they keep the contract
-/

namespace RelayContracts

namespace Aptos

namespace BlockStm

open BlockExecutor

/-! ### A scheduler -/

/-- The state of the scheduler: what it stands for, and how it goes on. -/
structure ReferenceScheduler where
  /-- What it stands for. -/
  view : SchedulerView
  /-- The incarnations of the transactions. -/
  incarnation : TxnIndex → Incarnation
  /-- How many executions and aborts there were. -/
  wave : ℕ
  /-- A validation was handed out in this wave. -/
  handedOut : TxnIndex → Bool
  /-- A validation was finished in this wave. -/
  validated : TxnIndex → Bool
  /-- There may be a transaction to commit. -/
  armed : Bool

namespace ReferenceScheduler

/-- The next task: a transaction that is to be executed, or else one that is to be validated. -/
def task (numTxns : ℕ) (st : ReferenceScheduler) : SchedulerTask ℕ Unit :=
  if st.view.halted then .done
  else
    match (List.range numTxns).find? fun i => st.view.status i = .ready with
    | some i => .executionTask i (st.incarnation i) .execution
    | none =>
      match (List.range numTxns).find? fun i => st.view.status i = .executed && !st.handedOut i with
      | some i => .validationTask i (st.incarnation i) st.wave
      | none => .retry

/-- The next task is handed out. -/
def give (numTxns : ℕ) (st : ReferenceScheduler) : SchedulerTask ℕ Unit × ReferenceScheduler :=
  (st.task numTxns,
    { st with
      view := st.view.give (st.task numTxns)
      handedOut := fun i => st.handedOut i || match st.task numTxns with
        | .validationTask j _ _ => i = j
        | _ => false })

/-- All validations have to be made anew. -/
def nextWave (st : ReferenceScheduler) : ReferenceScheduler :=
  { st with wave := st.wave + 1, handedOut := fun _ => false, validated := fun _ => false }

/-- The scheduler. -/
def scheduler (numTxns : ℕ) : Scheduler where
  State := ReferenceScheduler
  Wave := ℕ
  Condvar := Unit
  new := fun _ =>
    ⟨⟨fun _ => .ready, 0, false, false, []⟩, fun _ => 0, 0, fun _ => false, fun _ => false, false⟩
  nextTask := give numTxns
  tryAbort := fun idx incarnation st =>
    if st.view.halted = false ∧ st.view.status idx = .executed ∧ st.incarnation idx = incarnation
    then (true, { st with view := st.view.setStatus idx .busy })
    else (false, st)
  finishAbort := fun idx incarnation st =>
    let given := give numTxns
      { st.nextWave with
        view := st.view.setStatus idx .ready
        incarnation := Function.update st.incarnation idx (incarnation + 1) }
    (.ok given.1, given.2)
  finishValidation := fun idx wave st =>
    { st with validated := fun i => st.validated i || (i = idx && wave = st.wave) }
  finishExecution := fun idx _ _ st =>
    let given := give numTxns { st.nextWave with view := st.view.setStatus idx .executed }
    (.ok given.1, given.2)
  finishExecutionDuringCommit := fun _ st => (.ok (), st.nextWave)
  tryCommit := fun st =>
    let idx := st.view.committed
    if st.view.status idx = .executed ∧ st.validated idx = true ∧ st.view.halted = false then
      (some (idx, st.incarnation idx),
        { st with view := { st.view.setStatus idx .committed with committed := idx + 1 } })
    else (none, st)
  shouldCoordinateCommits := fun st =>
    if st.armed ∧ st.view.coordinated = false then
      (true, { st with view := { st.view with coordinated := true }, armed := false })
    else (false, st)
  queueingCommitsArm := fun st => { st with armed := true }
  queueingCommitsMarkDone := fun st => { st with view := { st.view with coordinated := false } }
  addToCommitQueue := fun idx st =>
    { st with view := { st.view with queue := st.view.queue ++ [idx] } }
  popFromCommitQueue := fun st =>
    match st.view.queue with
    | [] => (none, st)
    | idx :: queue => (some idx, { st with view := { st.view with queue } })
  halt := fun st => { st with view := { st.view with halted := true } }
  notifyOne := fun _ st => st

theorem mayGive_task (numTxns : ℕ) (st : ReferenceScheduler) :
    st.view.MayGive (st.task numTxns) := by
  rw [task]
  split
  · assumption
  next hhalted =>
    split
    · next i hi =>
      have hready := List.find?_some hi
      exact ⟨Bool.eq_false_iff.mpr hhalted, of_decide_eq_true hready⟩
    · split
      · trivial
      · trivial

theorem give_eq {numTxns : ℕ} {st st' : ReferenceScheduler} {task : SchedulerTask ℕ Unit}
    (h : give numTxns st = (task, st')) :
    st.view.MayGive task ∧ (st.view.give task).Becomes st'.view := by
  cases h
  exact ⟨mayGive_task numTxns st, _, fun _ => rfl, rfl⟩

/-- **The scheduler is correct.** -/
def correct (numTxns : ℕ) : (scheduler numTxns).Correct numTxns where
  view := ReferenceScheduler.view
  view_new := rfl
  nextTask := fun _ _ _ h => give_eq h
  tryAbort_true := fun idx incarnation st st' h => by
    by_cases hif : st.view.halted = false ∧ st.view.status idx = .executed ∧
      st.incarnation idx = incarnation
    · cases (if_pos hif).symm.trans h
      exact ⟨hif.1, hif.2.1, rfl⟩
    · cases (if_neg hif).symm.trans h
  tryAbort_false := fun idx incarnation st st' h => by
    by_cases hif : st.view.halted = false ∧ st.view.status idx = .executed ∧
      st.incarnation idx = incarnation
    · cases (if_pos hif).symm.trans h
    · cases (if_neg hif).symm.trans h
      rfl
  finishAbort := fun _ _ _ _ _ _ h => by
    cases h
    exact give_eq rfl
  finishValidation := fun _ _ _ => rfl
  finishExecution := fun _ _ _ _ _ _ _ h => by
    cases h
    exact give_eq rfl
  finishExecutionDuringCommit := fun _ _ _ h => by
    cases h
    rfl
  tryCommit_some := fun idx incarnation st st' h => by
    by_cases hif : st.view.status st.view.committed = .executed ∧
      st.validated st.view.committed = true ∧ st.view.halted = false
    · cases (if_pos hif).symm.trans h
      exact ⟨rfl, hif.1, hif.2.2, rfl⟩
    · cases (if_neg hif).symm.trans h
  tryCommit_none := fun st st' h => by
    by_cases hif : st.view.status st.view.committed = .executed ∧
      st.validated st.view.committed = true ∧ st.view.halted = false
    · cases (if_pos hif).symm.trans h
    · cases (if_neg hif).symm.trans h
      rfl
  shouldCoordinateCommits_true := fun st st' h => by
    by_cases hif : st.armed = true ∧ st.view.coordinated = false
    · cases (if_pos hif).symm.trans h
      exact ⟨hif.2, rfl⟩
    · cases (if_neg hif).symm.trans h
  shouldCoordinateCommits_false := fun st st' h => by
    by_cases hif : st.armed = true ∧ st.view.coordinated = false
    · cases (if_pos hif).symm.trans h
    · cases (if_neg hif).symm.trans h
      rfl
  queueingCommitsArm := fun _ => rfl
  queueingCommitsMarkDone := fun _ => rfl
  addToCommitQueue := fun _ _ => rfl
  popFromCommitQueue_some := fun idx st st' h => by
    simp only [scheduler] at h
    split at h
    · cases h
    · next hqueue =>
      cases h
      rw [hqueue, List.erase_cons_head]
      exact ⟨List.mem_cons_self, rfl⟩
  popFromCommitQueue_none := fun st st' h => by
    simp only [scheduler] at h
    split at h
    · next hqueue =>
      cases h
      exact ⟨hqueue, rfl⟩
    · cases h
  halt := fun _ => ⟨_, rfl⟩
  notifyOne := fun _ _ => rfl

end ReferenceScheduler

/-! ### A record -/

section Record

variable {S : Sig} {ReadSet : Type} (env : Env S)
  (captured : ReadSet → List (Request S × Answer S))

/-- The state of the record: what it stands for, and what is recorded with the executions. -/
structure ReferenceRecord (S : Sig) (ReadSet : Type) where
  /-- What it stands for. -/
  view : RecordView S ReadSet
  /-- The resource writes. -/
  writes : TxnIndex → List (S.Key × S.Value)
  /-- The finalized groups. -/
  groups : TxnIndex → List (FinalizedGroup S)

namespace ReferenceRecord

/-- The recorded output of a transaction. -/
def output (st : ReferenceRecord S ReadSet) (idx : TxnIndex) : Option (Output S) :=
  (st.view.recorded idx).bind fun r => r.status.output?

theorem output_eq {st : ReferenceRecord S ReadSet} {idx : TxnIndex} {r : Recorded S ReadSet}
    {o : Output S} (hr : st.view.recorded idx = some r) (ho : r.status.output? = some o) :
    st.output idx = some o := by
  rw [output, hr]
  exact ho

/-- The keys that an output modifies, with their kinds. -/
def modifiedKeysOf (o : Output S) : List (S.Key × KeyKind) :=
  (o.resourceWriteSet.map Prod.fst ++ o.aggregatorV1WriteSet.map Prod.fst ++
      o.aggregatorV1DeltaSet.map Prod.fst).map (·, .resource) ++
    (o.moduleWriteSet.map Prod.fst).map (·, .modulePath) ++
    (o.resourceGroupWriteSet.map GroupWrite.key).map (·, .group)

/-- `check_fatal_vm_error`, of a status. -/
def fatalVmError : ExecutionStatus S → Except S.Error Unit
  | .abort e => .error e
  | _ => .ok ()

/-- `check_execution_status_during_commit`, of a status. -/
def executionError : ExecutionStatus S → Except String Unit
  | .speculativeExecutionAbortError msg => .error msg
  | .delayedFieldsCodeInvariantError msg => .error msg
  | _ => .ok ()

/-- The record. -/
def lastInputOutput : TxnLastInputOutput S ReadSet where
  State := ReferenceRecord S ReadSet
  new := fun _ => ⟨⟨fun _ => none, fun _ => none⟩, fun _ => [], fun _ => []⟩
  record := fun idx rs status writes st =>
    (true, { st with
      view := st.view.setRecorded idx (some ⟨rs, status⟩)
      writes := Function.update st.writes idx writes })
  readSet := fun idx st => (st.view.recorded idx).map Recorded.readSet
  modifiedKeys := fun idx st => (st.output idx).map modifiedKeysOf
  delayedFieldKeys := fun idx st =>
    (st.output idx).map fun o => o.delayedFieldChangeSet.map Prod.fst
  checkFatalVmError := fun idx st =>
    (st.view.recorded idx).elim (.ok ()) fun r => fatalVmError r.status
  checkExecutionStatusDuringCommit := fun idx st =>
    (st.view.recorded idx).elim (.ok ()) fun r => executionError r.status
  feeStatement := fun idx st => (st.view.recorded idx).bind fun r => r.status.output?.map
    fun o limit => env.accumulateFeeStatement limit idx o ((captured r.readSet).map Prod.fst)
  updateToSkipRest := fun idx st =>
    { st with view := st.view.setRecorded idx ((st.view.recorded idx).map fun r =>
        { r with status := toSkipRest r.status }) }
  groupsToFinalize := fun idx st => (st.output idx).elim [] (groupsToFinalize env)
  recordFinalizedGroup := fun idx groups st =>
    { st with groups := Function.update st.groups idx groups }
  blockSkipsRestAtIdx := fun idx st =>
    (st.view.recorded idx).elim false fun r => isSkipRest r.status
  takeFinalizedGroup := fun idx st => (st.groups idx, st)
  takeResourceWriteSet := fun idx st => (st.writes idx, st)
  readsNeedingDelayedFieldExchange := fun idx st =>
    (st.output idx).elim [] Output.readsNeedingDelayedFieldExchange
  events := fun idx st => (st.output idx).elim [] Output.events
  aggregatorV1DeltaKeys := fun idx st =>
    (st.output idx).elim [] fun o => o.aggregatorV1DeltaSet.map Prod.fst
  recordMaterializedTxnOutput := fun idx deltaWrites writes events st =>
    match st.output idx with
    | none => (.error "No output", st)
    | some o => match env.incorporateError o deltaWrites writes events with
      | some msg => (.error msg, st)
      | none =>
        let final := .materialized o deltaWrites writes events
        (.ok (), { st with view := st.view.setMaterialized idx final })
  takeOutput := fun idx st =>
    (((st.view.recorded idx).elim (.speculativeExecutionAbortError "No output") Recorded.status,
      (st.view.materialized idx).getD .skipOutput),
      { st with view := st.view.setRecorded idx none })

variable {captured}

/-- **The record is correct.** -/
def correct : (lastInputOutput env captured).Correct env captured where
  view := ReferenceRecord.view
  view_new := rfl
  record := fun _ _ _ _ _ _ h => by
    cases h
    rfl
  readSet := fun _ _ => rfl
  checkFatalVmError := fun idx st r hr h e he => by
    simp only [lastInputOutput, hr, Option.elim_some, he, fatalVmError] at h
    cases h
  checkExecutionStatusDuringCommit := fun idx st r hr h => by
    simp only [lastInputOutput, hr, Option.elim_some] at h
    refine ⟨fun msg hmsg => ?_, fun msg hmsg => ?_⟩
    · rw [hmsg] at h
      cases h
    · rw [hmsg] at h
      cases h
  feeStatement := fun idx st r o hr ho => by
    simp only [lastInputOutput, hr, Option.bind_some, ho, Option.map_some]
  updateToSkipRest := fun idx st r hr => by
    simp only [lastInputOutput, hr, Option.map_some]
  recordFinalizedGroup := fun _ _ _ => rfl
  blockSkipsRestAtIdx := fun idx st r hr => by
    simp only [lastInputOutput, hr, Option.elim_some]
  takeFinalizedGroup := fun _ _ => rfl
  takeResourceWriteSet := fun _ _ => rfl
  recordMaterializedTxnOutput := fun idx deltaWrites writes events st st' r o hr ho h => by
    have houtput : output st idx = some o := output_eq hr ho
    simp only [lastInputOutput, houtput] at h
    split at h
    · cases h
    · cases h
      rfl
  takeOutput := fun idx st r final hr hfinal => by
    simp only [lastInputOutput, hr, hfinal, Option.elim_some, Option.getD_some]
    exact ⟨trivial, none, rfl⟩

end ReferenceRecord

end Record

/-! ### All together -/

section Components

variable {S : Sig} (env : Env S) (cache : MVHashMap S)
  (fetch : TxnIndex → Request S → cache.State → ℕ → Option (Answer S × ℕ))
  (valid : Request S × Answer S → TxnIndex → cache.State → Bool)

/-- Reads in a list. All of them are made again in a validation. -/
def referenceReads : CapturedReads S cache.State where
  ReadSet := List (Request S × Answer S)
  new := []
  captureDelayedFieldReadError := id
  isIncorrectUse := env.isIncorrectUse
  dataReads := id
  groupReads := fun _ => []
  validateRead := valid
  validateDelayedFieldReads := fun _ _ _ => .ok true

/-- What was read is answered as before; what was not is fetched, and captured. -/
def referenceView (Sched : Type) : LatestView S Sched cache.State (List (Request S × Answer S))
    where
  read := fun idx q rs st =>
    match rs.lookup q with
    | some a => some ((a, rs), st)
    | none => (fetch idx q st.versionedMap st.sharedCounter).map fun p =>
        ((p.1, rs ++ [(q, p.1)]), { st with sharedCounter := p.2 })
  delayedFields := fun _ _ => env.baseDelayed

/-- The components, over a cache, a way to read in it and a way to check a read. -/
def reference : Components S where
  scheduler := ReferenceScheduler.scheduler env.numTxns
  versionedCache := cache
  capturedReads := referenceReads env cache valid
  latestView := referenceView env cache fetch _
  lastInputOutput := ReferenceRecord.lastInputOutput env id

/-- **The contract can be kept.** -/
def reference_correct : (reference env cache fetch valid).Correct env where
  scheduler := ReferenceScheduler.correct env.numTxns
  capturedReads := ⟨id, rfl, fun _ => rfl⟩
  latestView := by
    refine ⟨fun idx q rs st a rs' st' h => ?_, fun idx q rs st a rs' st' b h hb => ?_,
      fun idx q rs st a rs' st' h hb => ?_⟩
    all_goals simp only [reference, referenceView] at h
    · split at h
      · cases h
        rfl
      · obtain ⟨p, -, heq⟩ := Option.map_eq_some_iff.mp h
        cases heq
        rfl
    · simp only [show rs.lookup q = some b from hb] at h
      cases h
      exact ⟨rfl, rfl⟩
    · simp only [show rs.lookup q = none from hb] at h
      obtain ⟨p, -, heq⟩ := Option.map_eq_some_iff.mp h
      cases heq
      rfl
  lastInputOutput := ReferenceRecord.correct env

end Components

end BlockStm

end Aptos

end RelayContracts
