import RelayContracts.Aptos.BlockStm.Execute

/-!
# The workers keep the invariant

`worker_loop` commits what is ready, materializes what is queued and runs tasks, until it is told
that it is done.

## Main results

* `wp_validateCommitReady`, `wp_reExecute` — the last validation of a transaction
* `wp_prepareAndQueue` — a commit
* `wp_materializeTxnCommit` — the result of a transaction
* `wp_workerLoop` — a round of the loop
-/

namespace RelayContracts

namespace Aptos

namespace BlockStm

open BlockExecutor Interleaving

variable {S : Sig} {C : Components S} {env : Env S} {hC : C.Correct env} {W : Type} [DecidableEq W]
  {w : W} {i : TxnIndex} {g : Ghost C} {r : Recorded S C.ReadSet} {e : Entry S}

/-- A worker that commits. -/
def Ghost.at (g : Ghost C) (s : Stage C) : Ghost C := { g with stage := some s }

omit [DecidableEq W] in
theorem stage_at {gs : W → Ghost C} {s : Stage C} (hg : gs w = g.at s) : (gs w).stage = some s := by
  rw [hg]
  rfl

omit [DecidableEq W] in
theorem at_eq {gs : W → Ghost C} {s : Stage C} (hg : gs w = g.at s) (s' : Stage C) :
    ({ gs w with stage := some s' } : Ghost C) = g.at s' := by
  rw [hg]
  rfl

/-! ### The last validation -/

/-- **The last validation** finds an execution. -/
theorem wp_validateCommitReady :
    Wp (Good hC) w (validateCommitReady C i) (g.at (.taken i)) fun _ g' =>
      ∃ r, g' = g.at (.ready i r) := by
  refine wp_onRecord_reading_bind fun pic gs log stage st hg hpic hgood => ?_
  rw [hC.lastInputOutput.readSet, ← hpic]
  cases hr : pic.record.recorded i with
  | none => exact .inl (Fails.bind fails_expect)
  | some r =>
    have hgood' := hgood.ready (stage_at hg) hr
    rw [at_eq hg] at hgood'
    refine .inr (hgood'.next_of (wp_expect_bind fun rs _ => ?_))
    exact (keeps_validateReadSet rs).mono fun _ _ hg' => ⟨r, hg'⟩

/-- **A transaction is executed one final time, in the middle of its commit.** -/
theorem wp_reExecute {incarnation : Incarnation} :
    Wp (Good hC) w (reExecute C env i incarnation) (g.at (.ready i r)) fun _ g' =>
      ∃ r, g' = g.at (.ready i r) := by
  refine keeps_updateTransactionOnAbort.then fun _ => Wp.bind ((wp_execute
    (Q := fun rs status g' => g' = g.at (.ready i ⟨rs, status⟩))
    fun pic gs log stage rs status hg hgood hran => ?_).mono ?_)
  · have hgood' := hgood.recordAgain (stage_at hg) hran
    rw [at_eq hg] at hgood'
    exact hgood'.next_of rfl
  rintro _ _ ⟨rs, status, rfl⟩
  refine wp_onScheduler_bind fun pic gs log stage st hg hpic hgood a st' hfin => ?_
  cases a with
  | error msg => exact .inl (Fails.bind fails_orError)
  | ok a =>
    rw [hC.scheduler.finishExecutionDuringCommit _ _ _ hfin, ← hpic]
    refine .inr (hgood.stay hg (wp_orError_bind fun _ _ => keeps_validate.then fun valid => ?_))
    cases valid with
    | false => exact Wp.bind (Wp.pure Wp.throw)
    | true =>
      have hready : Keeps hC w (g.at (.ready i ⟨rs, status⟩)) (validateCommitReady C i) :=
        keeps_validateCommitReady
      -- an error of the validation is taken for `false`, and that is an error too
      refine WpRun.through (F := fun p => ((do
        let ready ← unwrapOrFalse C p
        if ready then pure ()
        else throw (.codeInvariantError
          s!"Validation after re-execution failed for {i} txn, validate() = {true}") :
          Worker C Unit)).run) (fun _ _ => rfl) (fun err => ?_)
        (WpRun.mono hready ?_)
      · cases err <;> exact Fails.throw
      · rintro b _ rfl
        cases b with
        | false => exact Wp.throw
        | true => exact Wp.pure ⟨_, rfl⟩

/-! ### The commit of a transaction -/

theorem output_of_status {status : ExecutionStatus S} (habort : ∀ err, status ≠ .abort err)
    (hspec : ∀ msg, status ≠ .speculativeExecutionAbortError msg)
    (hdelayed : ∀ msg, status ≠ .delayedFieldsCodeInvariantError msg) :
    ∃ o, status.output? = some o := by
  cases status with
  | success o => exact ⟨o, rfl⟩
  | skipRest o => exact ⟨o, rfl⟩
  | abort err => exact absurd rfl (habort err)
  | speculativeExecutionAbortError msg => exact absurd rfl (hspec msg)
  | delayedFieldsCodeInvariantError msg => exact absurd rfl (hdelayed msg)

omit [DecidableEq W] in
theorem GoodWith.recorded_of_ready {pic : Picture C} {gs : W → Ghost C} {log : List (Entry S)}
    {stage : Stage C} (h : GoodWith hC pic log gs stage) (hg : gs w = g.at (.ready i r)) :
    pic.record.recorded i = some r := by
  obtain rfl := h.commit.stage_eq (stage_at hg)
  exact h.commit.stageOk.2.2.1

/-- **A transaction that is committed has an output.** -/
theorem wp_checkStatus :
    Wp (Good hC) w (checkStatus C i) (g.at (.ready i r)) fun _ g' =>
      g' = g.at (.ready i r) ∧ ∃ o, r.status.output? = some o := by
  refine wp_onRecord_reading_bind fun pic gs log stage st hg hpic hgood => ?_
  cases hfatal : C.lastInputOutput.checkFatalVmError i st with
  | error err => exact .inl fails_throw
  | ok a =>
    have habort := hC.lastInputOutput.checkFatalVmError i st r
      (hpic ▸ hgood.recorded_of_ready hg) hfatal
    refine .inr (hgood.stay hg ?_)
    refine wp_onRecord_reading_bind fun pic₁ gs₁ log₁ stage₁ st₁ hg₁ hpic₁ hgood₁ => ?_
    cases hstatus : C.lastInputOutput.checkExecutionStatusDuringCommit i st₁ with
    | error msg => exact .inl fails_orError
    | ok a =>
      obtain ⟨hspec, hdelayed⟩ := hC.lastInputOutput.checkExecutionStatusDuringCommit i st₁ r
        (hpic₁ ▸ hgood₁.recorded_of_ready hg₁) hstatus
      exact .inr (hgood₁.stay hg₁ (Wp.pure ⟨rfl, output_of_status habort hspec hdelayed⟩))

/-- **The fee of a transaction is accumulated**, and the transaction is in the log. -/
theorem wp_accumulateFee {o : Output S} (ho : r.status.output? = some o) :
    Wp (Good hC) w (accumulateFee C env i) (g.at (.ready i r)) fun _ g' =>
      ∃ e b, e.idx = i ∧ g' = g.at (.logged e b) := by
  refine wp_onRecord_reading_bind fun pic gs log stage st hg hpic hgood => .inr ?_
  rw [hC.lastInputOutput.feeStatement i st r o (hpic ▸ hgood.recorded_of_ready hg) ho]
  refine hgood.stay hg ?_
  refine wp_step_bind fun st₁ gs₁ log₁ stage₁ hg₁ hgood₁ limit st₁' hf => .inr ?_
  cases hf
  cases hend : (decide (i < env.numTxns - 1) &&
      env.shouldEndBlockParallel (limitWith hC st₁.sharedCommitState i r o)) with
  | false =>
    have hgood₂ := hgood₁.count (stage_at hg₁) ho hend
    rw [at_eq hg₁] at hgood₂
    refine hgood₂.next_of (wp_onlyIf (fun hx => ?_) fun _ => ⟨entryOf hC i r o, _, rfl, rfl⟩)
    cases hend.symm.trans hx
  | true =>
    have hgood₂ := hgood₁.countLast (stage_at hg₁) ho hend
    rw [at_eq hg₁] at hgood₂
    refine hgood₂.next_of (wp_onlyIf (fun _ => ?_) fun hx => ?_)
    · refine wp_onRecord_noValue fun pic₃ gs₃ log₃ stage₃ st₃ hg₃ hpic₃ hgood₃ => ?_
      have hr : pic₃.record.recorded i = some r := by
        obtain rfl := hgood₃.commit.stage_eq (stage_at hg₃)
        exact hgood₃.commit.stageOk.2.2.1
      have hgood₄ := hgood₃.skipRest (stage_at hg₃)
      rw [at_eq hg₃] at hgood₄
      rw [hC.lastInputOutput.updateToSkipRest i st₃ r (hpic₃ ▸ hr), ← hpic₃]
      exact hgood₄.next_of ⟨entryOf hC i r o, true, rfl, rfl⟩
    · cases hend.symm.trans hx

/-- What a worker knows between two commits. -/
structure Between (task : C.Task) (g : Ghost C) : Prop where
  hasTask : HasTask task g
  stage : g.stage = some .between
  mat : g.mat = none
  ended : g.ended = false

theorem wp_enqueue {b : Bool} (hended : g.ended = false) (hskips : g.seenHalt = true ∨ b = false) :
    Wp (Good hC) w (onScheduler (noValue (C.scheduler.addToCommitQueue e.idx)))
      (g.at (.logged e b)) fun _ g' => g' = g.at .between := by
  refine wp_onScheduler_noValue fun pic gs log stage st hg hpic hgood => ?_
  have hgood' := hgood.enqueue (stage_at hg) (by rw [hg]; exact hended) fun hh => by
    refine hskips.resolve_left fun hseen => ?_
    have hw : (gs w).seenHalt = true := by
      rw [hg]
      exact hseen
    have hhalted := hgood.seenHalt w hw
    rw [hh] at hhalted
    cases hhalted
  rw [at_eq hg] at hgood'
  rw [hC.scheduler.addToCommitQueue, ← hpic]
  exact hgood'.next_of rfl

/-- The worker is between two commits again. -/
theorem Between.at {task : C.Task} {g' : Ghost C} (h : Between task g) (htask : g'.task = g.task)
    (hmat : g'.mat = g.mat) (hended : g'.ended = g.ended)
    (hseen : g.seenHalt = true → g'.seenHalt = true) : Between task (g'.at .between) :=
  ⟨⟨htask.trans h.hasTask.1, fun hd => hseen (h.hasTask.2 hd)⟩, rfl, hmat.trans h.mat,
    hended.trans h.ended⟩

/-- The commits end with a transaction: the scheduler is halted before it is queued. -/
theorem wp_haltAndQueue {task : C.Task} {b : Bool} (h : Between task g)
    (hlast : e.idx + 1 = env.numTxns ∨ b = true) :
    Wp (Good hC) w (do
      assertNoExecutionTask C env e.idx task
      onScheduler (noValue C.scheduler.halt)
      onScheduler (noValue (C.scheduler.addToCommitQueue e.idx))
      pure false) (g.at (.logged e b)) fun _ g' => Between task g' := by
  have hassert : Keeps hC w (g.at (.logged e b)) (assertNoExecutionTask C env e.idx task) := by
    cases task with
    | executionTask idx incarnation kind => exact keeps_onlyIf (Keeps.throw _)
    | _ => exact Keeps.pure ()
  refine hassert.then fun _ => ?_
  refine Wp.bind (wp_onScheduler_noValue fun pic gs log stage st hg hpic hgood => ?_)
  obtain ⟨status, hview⟩ := hC.scheduler.halt st
  rw [hview, ← hpic]
  refine (hgood.halt (stage_at hg) hlast).next_of ?_
  rw [hg]
  refine Wp.bind ((wp_enqueue (g := { g with seenHalt := true }) h.ended (.inl rfl)).mono ?_)
  rintro _ _ rfl
  exact Wp.pure (h.at rfl rfl rfl fun _ => rfl)

/-- **A round of the commits.** -/
theorem wp_prepareAndQueue {task : C.Task} {incarnation : Incarnation} (hready : Between task g) :
    Wp (Good hC) w (prepareAndQueue C env task i incarnation) (g.at (.taken i))
      fun _ g' => Between task g' := by
  refine Wp.bind (wp_validateCommitReady.mono ?_)
  rintro ready _ ⟨r, rfl⟩
  have hre : Wp (Good hC) w (onlyIf (!ready) (reExecute C env i incarnation)) (g.at (.ready i r))
      fun _ g' => ∃ r, g' = g.at (.ready i r) :=
    wp_onlyIf (fun _ => wp_reExecute) fun _ => ⟨r, rfl⟩
  refine Wp.bind (hre.mono ?_)
  rintro _ _ ⟨r, rfl⟩
  refine Wp.bind (wp_checkStatus.mono ?_)
  rintro _ _ ⟨rfl, o, ho⟩
  refine Wp.bind ((wp_accumulateFee ho).mono ?_)
  rintro _ _ ⟨e, b, rfl, rfl⟩
  refine keeps_finalizedGroups.then fun groups => ?_
  refine (keeps_onRecord (hC.lastInputOutput.recordFinalizedGroup e.idx groups)).then fun _ => ?_
  refine wp_onRecord_reading_bind fun pic gs log stage st hg hpic hgood => .inr ?_
  have hskips : C.lastInputOutput.blockSkipsRestAtIdx e.idx st = b := by
    obtain rfl := hgood.commit.stage_eq (stage_at hg)
    obtain ⟨-, -, -, -, r, hr, hb⟩ := hgood.commit.stageOk
    rw [hC.lastInputOutput.blockSkipsRestAtIdx e.idx st r (hpic ▸ hr), hb]
  rw [hskips]
  refine hgood.stay hg ?_
  cases hend : (decide (e.idx + 1 = env.numTxns) || b) with
  | false =>
    rw [if_neg Bool.false_ne_true]
    refine Wp.bind ((wp_enqueue hready.ended (.inr (Bool.or_eq_false_iff.mp hend).2)).mono ?_)
    rintro _ _ rfl
    exact Wp.pure (hready.at rfl rfl rfl id)
  | true =>
    rw [if_pos rfl]
    exact wp_haltAndQueue hready ((Bool.or_eq_true_iff.mp hend).imp_left of_decide_eq_true)

/-! ### The result of a transaction -/

/-- A worker that materializes a transaction. -/
def Ghost.matAt (g : Ghost C) (e : Entry S) (s : MatStep S) : Ghost C :=
  { g with mat := some (e, s) }

omit [DecidableEq W] in
theorem mat_at {gs : W → Ghost C} {s : MatStep S} (hg : gs w = g.matAt e s) :
    (gs w).mat = some (e, s) := by
  rw [hg]
  rfl

omit [DecidableEq W] in
theorem matAt_eq {gs : W → Ghost C} {s : MatStep S} (hg : gs w = g.matAt e s) (s' : MatStep S) :
    ({ gs w with mat := some (e, s') } : Ghost C) = g.matAt e s' := by
  rw [hg]
  rfl

theorem wp_storeResult {status : ExecutionStatus S} {o : Output S} {final : Final S}
    (h : status.output? = some o) :
    Wp (Good hC) w (storeResult C e.idx (status, final)) (g.matAt e (.outputTaken final))
      fun _ g' => g' = { g with mat := none } := by
  have hstore : Wp (Good hC) w (BlockStm.step (C := C) (noValue fun st =>
      { st with finalResults := st.finalResults.set e.idx final }))
      (g.matAt e (.outputTaken final)) fun _ g' => g' = { g with mat := none } := by
    refine wp_step fun st gs log stage hg hgood a st' hf => ?_
    cases hf
    refine (hgood.store (mat_at hg)).next_of ?_
    rw [hg]
    rfl
  cases status with
  | success o => exact hstore
  | skipRest o => exact hstore
  | abort err => cases h
  | speculativeExecutionAbortError msg => cases h
  | delayedFieldsCodeInvariantError msg => cases h

/-- **A committed transaction is materialized, and gets its result.** -/
theorem wp_materializeTxnCommit :
    Wp (Good hC) w (materializeTxnCommit C env e.idx) (g.matAt e .popped) fun _ g' =>
      g' = { g with mat := none } := by
  refine keeps_serializedGroups.then fun groups => ?_
  refine keeps_materializedResourceWriteSet.then fun resources => ?_
  refine keeps_materializedEvents.then fun events => ?_
  refine keeps_materializeAggregatorV1DeltaWrites.then fun deltaWrites => ?_
  refine wp_onRecord_bind fun pic gs log stage st hg hpic hgood a st' hrecord => ?_
  cases a with
  | error msg => exact .inl (Fails.bind fails_orError)
  | ok a =>
    refine .inr ?_
    obtain ⟨-, ⟨r, hr, hout⟩, -⟩ := hgood.results.mat w e _ (mat_at hg)
    have hview := hC.lastInputOutput.recordMaterializedTxnOutput e.idx _ _ _ st st' r e.output
      (hpic ▸ hr) hout hrecord
    generalize hfinal : Final.materialized e.output deltaWrites (resources ++ groups) events =
      final at hview
    rw [hview, ← hpic]
    have hgood' : GoodWith hC (pic.withRecord (pic.record.setMaterialized e.idx final)) log
        (Function.update gs w (g.matAt e (.incorporated final))) stage := by
      rw [← matAt_eq hg]
      exact hgood.materialize (mat_at hg)
        ⟨rfl, rfl, rfl, fun j hj => ⟨rfl, Function.update_of_ne hj ..⟩⟩
        ⟨⟨r, hr, hout⟩, Function.update_self .., _, _, _, hfinal.symm⟩
    refine hgood'.next_of (wp_orError_bind fun _ _ => ?_)
    refine wp_onRecord_bind fun pic₁ gs₁ log₁ stage₁ st₁ hg₁ hpic₁ hgood₁ a₁ st₁' htake => .inr ?_
    obtain ⟨-, ⟨⟨r₁, hr₁, hout₁⟩, hmat₁, hyields⟩, -⟩ := hgood₁.results.mat w e _ (mat_at hg₁)
    obtain ⟨hanswer, r', hview₁⟩ := hC.lastInputOutput.takeOutput e.idx st₁ r₁ _ (hpic₁ ▸ hr₁)
      (hpic₁ ▸ hmat₁)
    rw [htake] at hanswer hview₁
    obtain rfl : a₁ = _ := hanswer
    rw [show hC.lastInputOutput.view st₁' = _ from hview₁, ← hpic₁]
    have hgood₂ : GoodWith hC (pic₁.withRecord (pic₁.record.setRecorded e.idx r')) log₁
        (Function.update gs₁ w (g.matAt e (.outputTaken final))) stage₁ := by
      rw [← matAt_eq hg₁]
      exact hgood₁.materialize (mat_at hg₁)
        ⟨rfl, rfl, rfl, fun j hj => ⟨Function.update_of_ne hj .., rfl⟩⟩ hyields
    exact hgood₂.next_of (wp_storeResult hout₁)

/-! ### The loop of a worker -/

/-- What a worker knows where it goes on. -/
def Before : Label C → Ghost C → Prop
  | .coordinate task, g => Ready task g
  | .prepareAndQueue task, g => Between task g
  | .drainCommitQueue task, g => Ready task g
  | .work task, g => Ready task g
  | .done, g => Ready (.done : C.Task) g

/-- What a worker knows at its end. -/
structure After (g : Ghost C) : Prop where
  stage : g.stage = none
  mat : g.mat = none
  seenHalt : g.seenHalt = true
  ended : g.ended = true

theorem wp_executionTask {incarnation : Incarnation}
    (h : Ready (.executionTask i incarnation .execution) g) :
    Wp (Good hC) w (runTask C env (.executionTask i incarnation .execution)) g
      (Ends Before After) := by
  obtain ⟨⟨htask, -⟩, hidle⟩ := h
  refine Wp.bind ((wp_execute (Q := fun _ _ g' => g' = g)
    fun pic gs log stage rs status hg hgood hran => ?_).mono ?_)
  · exact (hgood.record (hg ▸ htask) hran).stay hg rfl
  rintro outside _ ⟨-, -, rfl⟩
  refine wp_onScheduler_bind fun pic gs log stage st hg hpic hgood a st' hfin => ?_
  cases a with
  | error msg => exact .inl (Fails.bind fails_orError)
  | ok task =>
    have htask' : (gs w).task = some i := hg ▸ htask
    have hgive := hC.scheduler.finishExecution _ _ _ _ _ _
      (fun hh => hpic ▸ hgood.tasks.busy (hpic ▸ hh) w i htask') hfin
    rw [← hpic] at hgive
    obtain ⟨g', log', stage', hgood', hready⟩ := hgood.next_give ⟨_, rfl⟩
      (hgood.tasks.release htask') hgive (hg ▸ hidle)
    exact .inr (hgood'.next_of (wp_orError_bind fun task' htask' => by
      cases htask'
      exact Wp.pure hready))

/-- **A task.** -/
theorem wp_runTask {task : C.Task} (h : Ready task g) :
    Wp (Good hC) w (runTask C env task) g (Ends Before After) := by
  cases task with
  | validationTask idx incarnation wave =>
    exact keeps_validate.then fun valid =>
      Wp.bind ((wp_updateOnValidation h.1.1 h.2).mono fun _ _ hready => Wp.pure hready)
  | executionTask idx incarnation kind =>
    cases kind with
    | execution => exact wp_executionTask h
    | wakeup condvar =>
      exact (keeps_onScheduler (hC.scheduler.notifyOne condvar)).then fun _ =>
        Wp.bind ((wp_nextTask h.1.1 h.2).mono fun _ _ hready => Wp.pure hready)
  | retry => exact Wp.bind ((wp_nextTask h.1.1 h.2).mono fun _ _ hready => Wp.pure hready)
  | done => exact Wp.pure h

/-- A worker materializes what is queued, or there is nothing queued. -/
theorem wp_drain {α : Type} {q : Worker C α} {Q : α → Ghost C → Prop} {p : Worker C α}
    (hmat : g.mat = none) (hsome : Wp (Good hC) w p g Q)
    (hnone : ∀ pic gs log stage, gs w = g → GoodWith hC pic log gs stage → pic.sched.queue = [] →
      Next hC w gs pic fun g => Wp (Good hC) w q g Q) :
    Wp (Good hC) w (do
      match ← onScheduler C.scheduler.popFromCommitQueue with
      | some idx =>
        materializeTxnCommit C env idx
        p
      | none => q) g Q := by
  refine wp_onScheduler_bind fun pic gs log stage st hg hpic hgood a st' hpop => .inr ?_
  cases a with
  | none =>
    obtain ⟨hqueue, hview⟩ := hC.scheduler.popFromCommitQueue_none _ _ hpop
    rw [hview, ← hpic]
    exact hnone pic gs log stage hg hgood (hpic ▸ hqueue)
  | some idx =>
    obtain ⟨hmem, hview⟩ := hC.scheduler.popFromCommitQueue_some _ _ _ hpop
    obtain ⟨e, rfl, hgood'⟩ := hgood.pop (hg ▸ hmat) (hpic ▸ hmem)
    rw [hview, ← hpic]
    refine hgood'.next_of (Wp.bind ?_)
    have hg' : ({ gs w with mat := some (e, .popped) } : Ghost C) = g.matAt e .popped := by
      rw [hg]
      rfl
    rw [hg']
    refine wp_materializeTxnCommit.mono ?_
    rintro - _ rfl
    have hself : ({ g with mat := none } : Ghost C) = g := by
      rw [← hmat]
    rw [hself]
    exact hsome

/-- A worker may coordinate the commits. -/
theorem wp_coordinate {task : C.Task} (h : Ready task g) :
    Wp (Good hC) w (workerLoop C env (.coordinate task)) g (Ends Before After) := by
  refine wp_onScheduler_bind fun pic gs log stage st hg hpic hgood b st' hcoord => .inr ?_
  cases b with
  | false =>
    rw [hC.scheduler.shouldCoordinateCommits_false _ _ hcoord, ← hpic]
    exact hgood.stay hg (Wp.pure h)
  | true =>
    obtain ⟨hfalse, hview⟩ := hC.scheduler.shouldCoordinateCommits_true _ _ hcoord
    rw [hview, ← hpic]
    refine (hgood.coordinate (hpic ▸ hfalse)).next_of (Wp.pure ?_)
    rw [hg]
    exact ⟨h.1, rfl, h.2.mat, h.2.ended⟩

/-- The commits are left to others. -/
theorem wp_markDone {task : C.Task} (h : Between task g) :
    Wp (Good hC) w (do
      onScheduler (noValue C.scheduler.queueingCommitsMarkDone)
      pure (some (.coordinate task)) : Worker C (Option (Label C))) g (Ends Before After) := by
  refine Wp.bind (wp_onScheduler_noValue fun pic gs log stage st hg hpic hgood => ?_)
  rw [hC.scheduler.queueingCommitsMarkDone, ← hpic]
  refine (hgood.uncoordinate (hg ▸ h.stage)).next_of (Wp.pure ?_)
  rw [hg]
  exact ⟨h.hasTask, rfl, h.mat, h.ended⟩

/-- A worker commits the next transaction, if there is one that can be committed. -/
theorem wp_commits {task : C.Task} (h : Between task g) :
    Wp (Good hC) w (workerLoop C env (.prepareAndQueue task)) g (Ends Before After) := by
  refine wp_onScheduler_bind fun pic gs log stage st hg hpic hgood a st' htry => .inr ?_
  cases a with
  | none =>
    rw [hC.scheduler.tryCommit_none _ _ htry, ← hpic]
    exact hgood.stay hg (Wp.bind (Wp.pure (wp_markDone h)))
  | some x =>
    obtain ⟨idx, incarnation⟩ := x
    obtain ⟨rfl, hexec, hhalted, hview⟩ := hC.scheduler.tryCommit_some _ _ _ _ htry
    rw [← hpic] at hexec hhalted hview ⊢
    have hgood' := hgood.take (hg ▸ h.stage) hexec hhalted
    rw [hview]
    refine hgood'.next_of (Wp.bind ?_)
    have hat : ({ gs w with stage := some (.taken pic.sched.committed) } : Ghost C) =
        g.at (.taken pic.sched.committed) := by
      rw [hg]
      rfl
    rw [hat]
    refine (wp_prepareAndQueue h).mono fun goOn g' hb => ?_
    cases goOn with
    | true => exact Wp.pure hb
    | false => exact wp_markDone hb

/-- **A round of the loop of a worker.** -/
theorem wp_workerLoop (label : Label C) (h : Before label g) :
    Wp (Good hC) w (workerLoop C env label) g (Ends Before After) := by
  cases label with
  | coordinate task => exact wp_coordinate h
  | prepareAndQueue task => exact wp_commits h
  | drainCommitQueue task =>
    exact wp_drain h.2.mat (Wp.pure h) fun pic gs log stage hg hgood _ => hgood.stay hg (Wp.pure h)
  | work task => exact wp_runTask h
  | done =>
    refine wp_drain h.2.mat (Wp.pure h) fun pic gs log stage hg hgood hqueue => ?_
    refine (hgood.finish hqueue).next_of (Wp.pure ?_)
    rw [hg]
    exact ⟨h.2.stage, h.2.mat, h.1.2 rfl, rfl⟩

end BlockStm

end Aptos

end RelayContracts
