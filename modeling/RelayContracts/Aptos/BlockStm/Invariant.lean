import RelayContracts.Aptos.BlockStm.Contract

/-!
# What the workers of the parallel executor keep

The invariant relates a `Picture` of what the workers share to the ghosts of the workers, and to a
ghost log of the transactions whose commit is through.

* `TasksOk`: a transaction is executed or aborted by one worker at a time, and not any more when it
  is committed.
* `CommitOk`: one worker at a time commits, and what it has in hand is at some `Stage`. The log is
  `Rolled`: it has the transactions in the order of the block, each with the end of its last
  execution, and it goes on as long as the rest of the block is not to be skipped.
* `ResultsOk`: each transaction of the log is queued, then materialized by one worker, and then it
  has its result.

## Main definitions

* `Entry`, `Rolled` — what the commits amount to
* `Picture`, `Ghost`
* `Good` — the invariant
-/

namespace RelayContracts

namespace Aptos

namespace BlockStm

open BlockExecutor

variable {S : Sig}

/-! ### Commits -/

/-- A transaction whose commit is through. -/
structure Entry (S : Sig) where
  /-- Its index. -/
  idx : TxnIndex
  /-- Its reads. -/
  reads : List (Request S × Answer S)
  /-- How the VM ended. -/
  status : ExecutionStatus S
  /-- Its output. -/
  output : Output S

section Log

variable (env : Env S)

/-- The VM, run for a transaction against some state, reads this and ends like that. -/
def Ran (i : TxnIndex) (reads : List (Request S × Answer S)) (status : ExecutionStatus S) : Prop :=
  ∃ (vm : Vm S) (view : Request S → Answer S), env.block[i]? = some vm ∧
    vm.capture view [] = (reads, status)

/-- The limit after the transactions of a log. -/
def limitAfter (log : List (Entry S)) : S.Limit :=
  log.foldl (fun limit e =>
    env.accumulateFeeStatement limit e.idx e.output (e.reads.map Prod.fst)) env.newLimit

/-- The limit ends the block at the last transaction of a log. -/
def reachesLimit (log : List (Entry S)) (idx : TxnIndex) : Bool :=
  idx < env.numTxns - 1 && env.shouldEndBlockParallel (limitAfter env log)

/-- The rest of the block is skipped after the last transaction of a log. -/
def skipsRest (log : List (Entry S)) : Bool :=
  log.getLast?.elim false fun e => isSkipRest e.status || reachesLimit env log e.idx

/-- A log of commits: the transactions from the first one on, each with an output of the VM, up to
where the rest of the block is skipped. -/
structure Rolled (log : List (Entry S)) : Prop where
  idx : ∀ (i : ℕ) (e : Entry S), log[i]? = some e → e.idx = i
  ran : ∀ e ∈ log, Ran env e.idx e.reads e.status
  output : ∀ e ∈ log, e.status.output? = some e.output
  goesOn : ∀ i < log.length, skipsRest env (log.take i) = false

/-- The commits have come to an end. -/
def Complete (log : List (Entry S)) : Prop :=
  log.length = env.numTxns ∨ skipsRest env log = true

end Log

section Rolled

variable {env : Env S} {log : List (Entry S)} {e : Entry S} {i : ℕ}

theorem Ran.lt_numTxns {reads : List (Request S × Answer S)} {status : ExecutionStatus S}
    (h : Ran env i reads status) : i < env.numTxns := by
  obtain ⟨vm, view, hvm, -⟩ := h
  exact (List.getElem?_eq_some_iff.mp hvm).1

theorem limitAfter_append (log : List (Entry S)) (e : Entry S) :
    limitAfter env (log ++ [e]) =
      env.accumulateFeeStatement (limitAfter env log) e.idx e.output (e.reads.map Prod.fst) := by
  rw [limitAfter, List.foldl_append]
  rfl

theorem skipsRest_append (log : List (Entry S)) (e : Entry S) :
    skipsRest env (log ++ [e]) = (isSkipRest e.status || reachesLimit env (log ++ [e]) e.idx) := by
  rw [skipsRest, List.getLast?_concat]
  rfl

theorem lt_of_log (h : log[i]? = some e) : i < log.length := (List.getElem?_eq_some_iff.mp h).1

theorem mem_of_log (h : log[i]? = some e) : e ∈ log := List.mem_of_getElem? h

theorem log_append {e' : Entry S} (h : (log ++ [e])[i]? = some e') :
    log[i]? = some e' ∨ i = log.length ∧ e' = e := by
  rcases Nat.lt_or_ge i log.length with hi | hi
  · rw [List.getElem?_append_left hi] at h
    exact .inl h
  · rw [List.getElem?_append_right hi, List.getElem?_singleton] at h
    split at h
    · next hzero =>
      cases h
      exact .inr ⟨Nat.le_antisymm (Nat.sub_eq_zero_iff_le.mp hzero) hi, rfl⟩
    · cases h

/-- The next transaction is committed. -/
theorem Rolled.append (h : Rolled env log) (hidx : e.idx = log.length)
    (hran : Ran env e.idx e.reads e.status) (houtput : e.status.output? = some e.output)
    (hgoes : skipsRest env log = false) : Rolled env (log ++ [e]) where
  idx := fun i e' he' => by
    rcases log_append he' with he' | ⟨rfl, rfl⟩
    · exact h.idx i e' he'
    · exact hidx
  ran := fun e' he' => by
    rcases List.mem_append.mp he' with he' | he'
    · exact h.ran e' he'
    · cases List.mem_singleton.mp he'
      exact hran
  output := fun e' he' => by
    rcases List.mem_append.mp he' with he' | he'
    · exact h.output e' he'
    · cases List.mem_singleton.mp he'
      exact houtput
  goesOn := fun i hi => by
    rw [List.length_append, List.length_singleton] at hi
    rw [List.take_append_of_le_length (Nat.lt_succ_iff.mp hi)]
    rcases Nat.lt_succ_iff_lt_or_eq.mp hi with hi | rfl
    · exact h.goesOn i hi
    · rw [List.take_length]
      exact hgoes

theorem Rolled.lt_numTxns (h : Rolled env log) (he : log[i]? = some e) : i < env.numTxns := by
  have hlt := (h.ran e (mem_of_log he)).lt_numTxns
  rwa [h.idx i e he] at hlt

end Rolled

/-! ### Pictures and ghosts -/

/-- What the shared state stands for. -/
structure Picture (C : Components S) where
  /-- The scheduler. -/
  sched : SchedulerView
  /-- The record. -/
  record : RecordView S C.ReadSet
  /-- The limit of the block. -/
  limit : S.Limit
  /-- The results. -/
  results : List (Final S)

/-- The picture of a state. -/
def picture {C : Components S} {env : Env S} (hC : C.Correct env) (st : Shared C) : Picture C where
  sched := hC.scheduler.view st.scheduler
  record := hC.lastInputOutput.view st.lastInputOutput
  limit := st.sharedCommitState
  results := st.finalResults

section Ghosts

variable (C : Components S)

/-- How far the commit of a transaction is. -/
inductive Stage where
  /-- None is being committed. -/
  | between
  /-- It is taken. -/
  | taken (idx : TxnIndex)
  /-- This is its last execution. -/
  | ready (idx : TxnIndex) (r : Recorded S C.ReadSet)
  /-- Its fee is accumulated, and the rest of the block is to be skipped. -/
  | counted (e : Entry S) (r : Recorded S C.ReadSet)
  /-- It is in the log, and to be queued; and whether the rest of the block is skipped. -/
  | logged (e : Entry S) (skips : Bool)

/-- How far the materialization of a transaction is. -/
inductive MatStep (S : Sig) where
  /-- It is taken from the queue. -/
  | popped
  /-- What was materialized is incorporated. -/
  | incorporated (final : Final S)
  /-- The output is taken from the record. -/
  | outputTaken (final : Final S)

/-- What a worker is at. -/
structure Ghost where
  /-- It has the task to execute or abort this transaction. -/
  task : Option TxnIndex
  /-- It coordinates the commits. -/
  stage : Option (Stage C)
  /-- It materializes a transaction. -/
  mat : Option (Entry S × MatStep S)
  /-- It has seen that the scheduler was halted. -/
  seenHalt : Bool
  /-- It has come to its end. -/
  ended : Bool

end Ghosts

/-! ### The invariant -/

section Invariant

variable {C : Components S} {env : Env S} {W : Type}

/-- The tasks of the workers. As long as the scheduler is not halted, they are at different
transactions, which the scheduler does not commit. -/
structure TasksOk (sched : SchedulerView) (tasks : W → Option TxnIndex) : Prop where
  busy : sched.halted = false → ∀ w i, tasks w = some i → sched.status i = .busy
  unique : sched.halted = false → ∀ w w' i, tasks w = some i → tasks w' = some i → w = w'
  uncommitted : ∀ w i, tasks w = some i → sched.committed ≤ i
  committed : sched.halted = false → ∀ i < sched.committed, sched.status i = .committed

variable (hC : C.Correct env) (pic : Picture C) (log : List (Entry S))

variable (env) in
/-- A transaction is being committed. -/
structure Open (i : TxnIndex) : Prop where
  idx : i = log.length
  committed : pic.sched.committed = log.length + 1
  halted : pic.sched.halted = false
  goesOn : skipsRest env log = false

/-- What is known at the stages of a commit. -/
def StageOk : Stage C → Prop
  | .between => pic.sched.committed = log.length ∧ pic.limit = limitAfter env log ∧
      (pic.sched.halted = false → skipsRest env log = false)
  | .taken i => Open env pic log i ∧ pic.limit = limitAfter env log ∧
      ∀ r, pic.record.recorded i = some r → Ran env i (hC.capturedReads.captured r.readSet) r.status
  | .ready i r => Open env pic log i ∧ pic.limit = limitAfter env log ∧
      pic.record.recorded i = some r ∧ Ran env i (hC.capturedReads.captured r.readSet) r.status
  | .counted e r => Open env pic log e.idx ∧ pic.limit = limitAfter env (log ++ [e]) ∧
      pic.record.recorded e.idx = some r ∧ r.status = e.status ∧
      e.status.output? = some e.output ∧ Ran env e.idx e.reads e.status ∧
      reachesLimit env (log ++ [e]) e.idx = true
  | .logged e skips => pic.sched.committed = log.length ∧ pic.limit = limitAfter env log ∧
      e.idx + 1 = log.length ∧ skipsRest env log = skips ∧
      ∃ r, pic.record.recorded e.idx = some r ∧ isSkipRest r.status = skips

/-- The commits. -/
structure CommitOk (stages : W → Option (Stage C)) (stage : Stage C) : Prop where
  /-- One worker at a time commits. -/
  own : ∀ w s, stages w = some s → s = stage ∧ pic.sched.coordinated = true ∧
    ∀ w', (stages w').isSome → w' = w
  idle : (∀ w, stages w = none) → stage = .between
  stageOk : StageOk hC pic log stage
  rolled : Rolled env log
  halted : pic.sched.halted = true → Complete env log
  /-- What is recorded is what the VM ended with. -/
  ran : ∀ i r, pic.sched.committed ≤ i → pic.record.recorded i = some r →
    Ran env i (hC.capturedReads.captured r.readSet) r.status

/-- The output of a transaction is in the record. -/
def Kept (e : Entry S) : Prop :=
  ∃ r, pic.record.recorded e.idx = some r ∧ r.status.output? = some e.output

/-- A transaction of the log has this result. -/
def Yields (e : Entry S) (final : Final S) : Prop :=
  ∃ deltaWrites writes events, final = .materialized e.output deltaWrites writes events

/-- What is known of a transaction that is being materialized. -/
def MatStepOk (e : Entry S) : MatStep S → Prop
  | .popped => Kept pic e
  | .incorporated final => Kept pic e ∧ pic.record.materialized e.idx = some final ∧ Yields e final
  | .outputTaken final => Yields e final

/-- A transaction of the log has no result yet. -/
def Waiting (stage : Stage C) (mats : W → Option (Entry S × MatStep S)) (i : TxnIndex) : Prop :=
  i ∈ pic.sched.queue ∨ (∃ e b, stage = .logged e b ∧ e.idx = i) ∨
    ∃ w e step, mats w = some (e, step) ∧ e.idx = i

variable (env) in
/-- The results. -/
structure ResultsOk (stage : Stage C) (mats : W → Option (Entry S × MatStep S)) : Prop where
  length : pic.results.length = env.numTxns
  nodup : pic.sched.queue.Nodup
  /-- Those that are queued. -/
  queued : ∀ i ∈ pic.sched.queue, ∃ e, e.idx = i ∧ log[i]? = some e ∧ Kept pic e
  /-- The one that is to be queued. -/
  toQueue : ∀ e b, stage = .logged e b →
    log[e.idx]? = some e ∧ Kept pic e ∧ e.idx ∉ pic.sched.queue
  /-- Those that are materialized. -/
  mat : ∀ w e step, mats w = some (e, step) → log[e.idx]? = some e ∧ MatStepOk pic e step ∧
    e.idx ∉ pic.sched.queue ∧ ∀ e' b, stage = .logged e' b → e'.idx ≠ e.idx
  unique : ∀ w e step w' e' step', mats w = some (e, step) → mats w' = some (e', step') →
    e.idx = e'.idx → w = w'
  /-- Those that have no result. -/
  blank : ∀ i < env.numTxns, log.length ≤ i ∨ Waiting pic stage mats i →
    pic.results[i]? = some .skipOutput
  /-- Those that have one. -/
  done : ∀ i e, log[i]? = some e → ¬ Waiting pic stage mats i →
    ∃ final, pic.results[i]? = some final ∧ Yields e final

/-- Workers have seen that the scheduler was halted. -/
def SeenOk (seenHalt : W → Bool) : Prop := ∀ w, seenHalt w = true → pic.sched.halted = true

/-- When all workers have come to their end, nothing is queued. -/
def EndedOk (ended : W → Bool) : Prop := (∀ w, ended w = true) → pic.sched.queue = []

/-- The invariant. -/
structure GoodWith (gs : W → Ghost C) (stage : Stage C) : Prop where
  tasks : TasksOk pic.sched fun w => (gs w).task
  commit : CommitOk hC pic log (fun w => (gs w).stage) stage
  results : ResultsOk env pic log stage fun w => (gs w).mat
  seenHalt : SeenOk pic fun w => (gs w).seenHalt
  ended : EndedOk pic fun w => (gs w).ended

end Invariant

/-- The invariant of the workers. -/
def Good {C : Components S} {env : Env S} {W : Type} (hC : C.Correct env) (st : Shared C)
    (gs : W → Ghost C) : Prop :=
  ∃ log stage, GoodWith hC (picture hC st) log gs stage

end BlockStm

end Aptos

end RelayContracts
