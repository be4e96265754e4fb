import RelayContracts.Aptos.BlockStm.Calls

/-!
# Executions and tasks

The VM reads through a view that other workers change between two reads. It still ends as it would
against one state, the one in which it finds each answer that was captured; and it is only recorded
with the reads that were captured.

## Main results

* `wp_executeTransaction` — the VM, by induction on its program
* `wp_execute` — an execution, from its beginning to the record
* `wp_nextTask`, `wp_updateOnValidation` — a worker is given a task
-/

namespace RelayContracts

namespace Aptos

namespace BlockStm

open BlockExecutor Interleaving

variable {S : Sig} {C : Components S} {env : Env S} {hC : C.Correct env} {W : Type} [DecidableEq W]
  {w : W} {i : TxnIndex} {g : Ghost C} {β : Type} {R : β → Ghost C → Prop}

/-! ### The VM -/

theorem wp_viewRead_bind {q : Request S} {rs : C.ReadSet} {p : Answer S × C.ReadSet → Worker C β}
    (h : ∀ a rs' st st', C.latestView.read i q rs st = some ((a, rs'), st') →
      Wp (Good hC) w (p (a, rs')) g R) :
    Wp (Good hC) w (viewRead i q rs >>= p) g R := by
  refine Wp.call_bind fun st gs hg hgood a st' hf => .inr ⟨g, ?_, ?_⟩
  all_goals
    obtain ⟨⟨⟨a, rs'⟩, pst⟩, hread, heq⟩ := Option.map_eq_some_iff.mp hf
    cases heq
  · have hpic : picture hC { st with
        scheduler := pst.scheduler, versionedCache := pst.versionedMap
        sharedCounter := pst.sharedCounter } = picture hC st := by
      rw [picture, hC.latestView.sched _ _ _ _ _ _ _ hread]
      rfl
    rw [Good, hpic, ← hg, Function.update_eq_self]
    exact hgood
  · exact h a rs' _ pst hread

/-- **The VM** ends as it would against some state, with the reads that are captured. -/
theorem wp_executeTransaction (vm : Vm S) (rs : C.ReadSet) :
    Wp (Good hC) w (executeTransaction C i vm rs) g fun r g' => g' = g ∧
      ∃ view, vm.capture view (hC.capturedReads.captured rs) =
        (hC.capturedReads.captured r.2, r.1) := by
  induction vm generalizing rs with
  | done status => exact Wp.pure ⟨rfl, fun _ => .value none, rfl⟩
  | read q next ih =>
    refine wp_viewRead_bind fun a rs' st st' hread => (ih a rs').mono ?_
    rintro r g' ⟨hg', view, hview⟩
    refine ⟨hg', ?_⟩
    cases hlookup : (hC.capturedReads.captured rs).lookup q with
    | some b =>
      obtain ⟨rfl, hsame⟩ := hC.latestView.again i q rs st a rs' st' b hread hlookup
      rw [hsame] at hview
      refine ⟨view, ?_⟩
      simp only [ReadProgram.capture, hlookup]
      exact hview
    | none =>
      rw [hC.latestView.first i q rs st a rs' st' hread hlookup] at hview
      refine ⟨Function.update view q a, ?_⟩
      simp only [ReadProgram.capture, hlookup, Function.update_self]
      rw [ReadProgram.capture_update (by simp [List.lookup_append, hlookup]), hview]

/-! ### The writes of an output -/

variable (hC g) in
/-- No read is captured, and the ghost of the worker is left as it is. -/
def SameReads (u u' : Updates C) (g' : Ghost C) : Prop :=
  g' = g ∧ hC.capturedReads.captured u'.readSet = hC.capturedReads.captured u.readSet

theorem wp_foldlM_reads {γ : Type} {l : List γ} {f : Updates C → γ → Worker C (Updates C)}
    {u : Updates C}
    (h : ∀ u c, Wp (Good hC) w (f u c) g (SameReads hC g u)) :
    Wp (Good hC) w (l.foldlM f u) g (SameReads hC g u) := by
  refine Wp.foldlM (fun _ u' g' => SameReads hC g u u' g') ⟨rfl, rfl⟩ ?_
  rintro c rest u' g' ⟨rfl, hu'⟩
  exact (h u' c).mono fun u'' g'' hu'' => ⟨hu''.1, hu''.2.trans hu'⟩

theorem wp_applyChange (u : Updates C) (x : S.Identifier × DelayedChange S) :
    Wp (Good hC) w (applyChange C i u x) g (SameReads hC g u) := by
  refine (keeps_onCache _).then fun r => ?_
  rcases r with (msg | err) | a
  · exact Wp.throw
  · exact Wp.pure ⟨rfl, hC.capturedReads.captured_error _⟩
  · exact Wp.pure ⟨rfl, rfl⟩

theorem wp_applyUpdates {incarnation : Incarnation} (o : Output S) (u : Updates C) :
    Wp (Good hC) w (applyUpdates C i incarnation o u) g (SameReads hC g u) := by
  refine Wp.bind ((wp_foldlM_reads fun u x => ?_).mono ?_)
  · exact (keeps_onCache _).then fun _ => (keeps_onCache _).then fun _ => Wp.pure ⟨rfl, rfl⟩
  rintro u₁ _ ⟨rfl, hu₁⟩
  refine Wp.bind ((wp_foldlM_reads fun u x => ?_).mono ?_)
  · exact (keeps_onCache _).then fun _ => Wp.pure ⟨rfl, rfl⟩
  rintro u₂ _ ⟨rfl, hu₂⟩
  refine Wp.bind ((wp_foldlM_reads fun u x => ?_).mono ?_)
  · exact (keeps_onCache _).then fun _ => Wp.pure ⟨rfl, rfl⟩
  rintro u₃ _ ⟨rfl, hu₃⟩
  refine Wp.bind ((wp_foldlM_reads fun u x => ?_).mono ?_)
  · exact (keeps_onCache _).then fun _ => Wp.pure ⟨rfl, rfl⟩
  rintro u₄ _ ⟨rfl, hu₄⟩
  refine (wp_foldlM_reads wp_applyChange).mono ?_
  rintro u₅ _ ⟨rfl, hu₅⟩
  exact ⟨rfl, ((hu₅.trans hu₄).trans hu₃).trans (hu₂.trans hu₁)⟩

theorem wp_applyResult {incarnation : Incarnation} (status : ExecutionStatus S) (u : Updates C) :
    Wp (Good hC) w (applyResult C i incarnation u status) g fun r g' =>
      SameReads hC g u r.1 g' := by
  cases status with
  | success o => exact Wp.bind ((wp_applyUpdates o u).mono fun _ _ h => Wp.pure h)
  | skipRest o => exact Wp.bind ((wp_applyUpdates o u).mono fun _ _ h => Wp.pure h)
  | abort err => exact Wp.pure ⟨rfl, rfl⟩
  | speculativeExecutionAbortError msg => exact Wp.pure ⟨rfl, hC.capturedReads.captured_error _⟩
  | delayedFieldsCodeInvariantError msg => exact Wp.throw

theorem keeps_removeKey (x : S.Key × KeyKind) : Keeps hC w g (removeKey C i x) := by
  obtain ⟨k, kind⟩ := x
  cases kind with
  | resource => exact keeps_onCache _
  | modulePath => exact keeps_onCache _
  | group => exact (keeps_onCache _).bind fun _ => keeps_onCache _

/-- **An execution** is seen in the picture only where it is recorded. -/
theorem wp_execute {incarnation : Incarnation} {Q : C.ReadSet → ExecutionStatus S → Ghost C → Prop}
    (hrecord : ∀ pic gs log stage rs status, gs w = g → GoodWith hC pic log gs stage →
      Ran env i (hC.capturedReads.captured rs) status →
      Next hC w gs (pic.withRecord (pic.record.setRecorded i (some ⟨rs, status⟩))) (Q rs status)) :
    Wp (Good hC) w (execute C env i incarnation) g fun _ g' => ∃ rs status, Q rs status g' := by
  refine wp_expect_bind fun vm hvm => Wp.bind ((wp_executeTransaction vm _).mono ?_)
  rintro ⟨result, reads⟩ _ ⟨rfl, view, hview⟩
  refine (keeps_reading _).then fun prev => (keeps_reading _).then fun fields => ?_
  refine Wp.bind ((wp_applyResult result _).mono ?_)
  rintro ⟨u, writes⟩ _ ⟨rfl, hu⟩
  refine (Keeps.forM keeps_removeKey).then fun _ => ?_
  refine Keeps.then (Keeps.forM fun _ => keeps_onCache _) fun _ => ?_
  refine wp_onRecord_bind fun pic gs log stage st hg hpic hgood b st' hrec => ?_
  cases b with
  | false => exact .inl fails_throw
  | true =>
    have hran : Ran env i (hC.capturedReads.captured u.readSet) result := by
      rw [hC.capturedReads.captured_new] at hview
      exact ⟨vm, view, hvm, hview.trans (by rw [hu])⟩
    rw [hC.lastInputOutput.record _ _ _ _ _ _ hrec, ← hpic]
    obtain ⟨g', log', stage', hgood', hQ⟩ := hrecord pic gs log stage _ _ hg hgood hran
    exact .inr (hgood'.next_of (Wp.pure ⟨_, _, hQ⟩))

/-! ### Tasks -/

/-- A worker has a task at hand. -/
def HasTask (task : C.Task) (g : Ghost C) : Prop :=
  g.task = taskOf task ∧ (task = .done → g.seenHalt = true)

/-- A worker does nothing besides. -/
structure Idle (g : Ghost C) : Prop where
  stage : g.stage = none
  mat : g.mat = none
  ended : g.ended = false

/-- What a worker with a task knows. -/
def Ready (task : C.Task) (g : Ghost C) : Prop := HasTask task g ∧ Idle g

section Give

variable {pic : Picture C} {gs : W → Ghost C} {log : List (Entry S)} {stage : Stage C}

/-- There is nothing to do any more. -/
def isDone : C.Task → Bool
  | .done => true
  | _ => false

/-- A worker is given a task, in the place of one it has finished. -/
theorem GoodWith.next_give {v v' : SchedulerView} {task : C.Task}
    (h : GoodWith hC pic log gs stage) (hv : ∃ status, v = { pic.sched with status })
    (htasks : TasksOk v (Function.update (fun u => (gs u).task) w none))
    (hgive : v.MayGive task ∧ (v.give task).Becomes v') (hidle : Idle (gs w)) :
    Next hC w gs (pic.withSched v') (Ready task) := by
  obtain ⟨status, rfl⟩ := hv
  obtain ⟨hmay, hbecomes⟩ := hgive
  have htasks' := htasks.give (w := w) (Function.update_self ..) hmay hbecomes
  rw [Function.update_idem] at htasks'
  have hv' : ∃ status, v' = { pic.sched with status } := by
    obtain ⟨status', -, rfl⟩ := hbecomes
    cases task with
    | executionTask idx incarnation kind => cases kind <;> exact ⟨status', rfl⟩
    | _ => exact ⟨status', rfl⟩
  refine (h.setTask (b := (gs w).seenHalt || isDone task) hv' htasks' fun hb => ?_).next_of
    ⟨⟨rfl, ?_⟩, hidle.stage, hidle.mat, hidle.ended⟩
  · refine (Bool.or_eq_true_iff.mp hb).imp_right fun hdone => ?_
    cases task with
    | done => exact hmay
    | _ => cases hdone
  · rintro rfl
    exact Bool.or_true _

end Give

theorem wp_nextTask (htask : g.task = none) (hidle : Idle g) :
    Wp (Good hC) w (onScheduler C.scheduler.nextTask) g Ready := by
  refine wp_onScheduler fun pic gs log stage st hg hpic hgood task st' hnext => ?_
  have hgive := hC.scheduler.nextTask st task st' hnext
  rw [← hpic] at hgive
  refine hgood.next_give ⟨_, rfl⟩ ?_ hgive (hg ▸ hidle)
  have htasks := TasksOk.same (w := w) hgood.tasks
  rwa [show (gs w).task = none from hg ▸ htask] at htasks

/-- **The end of a validation.** A transaction that was found invalid is aborted. -/
theorem wp_updateOnValidation {incarnation : Incarnation} {valid : Bool} {wave : C.scheduler.Wave}
    (htask : g.task = none) (hidle : Idle g) :
    Wp (Good hC) w (updateOnValidation C i incarnation valid wave) g Ready := by
  have hfinish : Wp (Good hC) w (do
      onScheduler (noValue (C.scheduler.finishValidation i wave))
      onlyIf valid (onScheduler (noValue C.scheduler.queueingCommitsArm))
      pure .retry : Worker C C.Task) g Ready :=
    (keeps_onScheduler (hC.scheduler.finishValidation i wave)).then fun _ =>
      (keeps_onlyIf (keeps_onScheduler hC.scheduler.queueingCommitsArm)).then fun _ =>
        Wp.pure ⟨⟨htask, fun h => by cases h⟩, hidle⟩
  cases valid with
  | true => exact Wp.bind (Wp.pure hfinish)
  | false =>
    refine wp_onScheduler_bind fun pic gs log stage st hg hpic hgood b st' habort => .inr ?_
    cases b with
    | false =>
      rw [hC.scheduler.tryAbort_false _ _ _ _ habort, ← hpic]
      exact hgood.stay hg hfinish
    | true =>
      obtain ⟨hhalted, hexecuted, hview⟩ := hC.scheduler.tryAbort_true _ _ _ _ habort
      rw [← hpic] at hhalted hexecuted hview
      have htasks := hgood.tasks.start (w := w) hhalted (i := i)
        (fun hx => by rw [hexecuted] at hx; cases hx) fun hx => by rw [hexecuted] at hx; cases hx
      rw [hview]
      refine (hgood.setTask ⟨_, rfl⟩ htasks .inl).next_of ?_
      rw [hg]
      refine keeps_updateTransactionOnAbort.then fun _ => ?_
      refine wp_onScheduler_bind fun pic₁ gs₁ log₁ stage₁ st₁ hg₁ hpic₁ hgood₁ a st₁' hfin => ?_
      cases a with
      | error msg => exact .inl fails_orError
      | ok task =>
        have htask₁ : (gs₁ w).task = some i := by rw [hg₁]
        have hgive := hC.scheduler.finishAbort _ _ _ _ _
          (fun hh => hpic₁ ▸ hgood₁.tasks.busy (hpic₁ ▸ hh) w i htask₁) hfin
        rw [← hpic₁] at hgive
        obtain ⟨g', log', stage', hgood', hready⟩ := hgood₁.next_give ⟨_, rfl⟩
          (hgood₁.tasks.release htask₁) hgive
          (by rw [hg₁]; exact ⟨hidle.stage, hidle.mat, hidle.ended⟩)
        exact .inr (hgood'.next_of (Wp.pure hready))

end BlockStm

end Aptos

end RelayContracts
