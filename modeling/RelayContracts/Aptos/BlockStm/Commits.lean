import RelayContracts.Aptos.BlockStm.Steps

/-!
# Tasks and commits keep the invariant

A worker that is given a task is at a transaction that is not committed, so what it records does not
touch what is committed. One worker at a time commits: it takes the next transaction, which no other
worker is at, may execute it again, accumulates its fee, and then the transaction is in the log. It
is queued when the scheduler was halted, if it is the last one.

## Main results

* `GoodWith.record` — an execution by the worker that has the task to is recorded
* `GoodWith.take`, `GoodWith.recordAgain` — a transaction is taken, and executed again
* `GoodWith.count`, `GoodWith.skipRest` — its fee is accumulated, and it may end the block
* `GoodWith.halt`, `GoodWith.enqueue`
-/

namespace RelayContracts

namespace Aptos

namespace BlockStm

open BlockExecutor

variable {S : Sig} {C : Components S} {env : Env S} {hC : C.Correct env} {pic : Picture C}
  {W : Type} [DecidableEq W] {gs : W → Ghost C} {w : W} {i : TxnIndex} {log : List (Entry S)}
  {stage s : Stage C} {e : Entry S} {r r' : Recorded S C.ReadSet}

/-! ### Pictures -/

/-- A picture with another scheduler. -/
def Picture.withSched (pic : Picture C) (v : SchedulerView) : Picture C := { pic with sched := v }

/-- A picture with another record. -/
def Picture.withRecord (pic : Picture C) (v : RecordView S C.ReadSet) : Picture C :=
  { pic with record := v }

/-- A picture with another limit. -/
def Picture.withLimit (pic : Picture C) (limit : S.Limit) : Picture C := { pic with limit }

/-! ### Tasks -/

/-- The task of a worker changes, and with it the status of transactions. -/
theorem GoodWith.setTask {x : Option TxnIndex} {b : Bool} {v : SchedulerView}
    (h : GoodWith hC pic log gs stage) (hv : ∃ status, v = { pic.sched with status })
    (htasks : TasksOk v (Function.update (fun u => (gs u).task) w x))
    (hb : b = true → (gs w).seenHalt = true ∨ pic.sched.halted = true) :
    GoodWith hC (pic.withSched v) log (Function.update gs w { gs w with task := x, seenHalt := b })
      stage := by
  obtain ⟨status, rfl⟩ := hv
  refine good_update htasks ?_ ?_ (h.seenHalt.update id hb) (h.ended.same id)
  · exact CommitOk.same (h.commit.keep rfl rfl rfl rfl (fun _ _ _ => rfl) h.commit.ran)
  · exact ResultsOk.same (h.results.keep rfl rfl fun _ _ => ⟨rfl, rfl⟩)

omit [DecidableEq W] in
/-- An execution by the worker that has the task to is recorded. -/
theorem GoodWith.record {rs : C.ReadSet} {status : ExecutionStatus S}
    (h : GoodWith hC pic log gs stage) (htask : (gs w).task = some i)
    (hran : Ran env i (hC.capturedReads.captured rs) status) :
    GoodWith hC (pic.withRecord (pic.record.setRecorded i (some ⟨rs, status⟩))) log gs stage := by
  have hle : pic.sched.committed ≤ i := h.tasks.uncommitted w i htask
  have hother : ∀ {j}, j ≠ i →
      (pic.record.setRecorded i (some ⟨rs, status⟩)).recorded j = pic.record.recorded j :=
    fun hj => Function.update_of_ne hj ..
  refine ⟨h.tasks, h.commit.keep rfl rfl rfl rfl (fun j hj _ => hother (hj.trans_le hle).ne) ?_,
    h.results.keep rfl rfl fun j hj => ⟨hother ?_, rfl⟩, h.seenHalt, h.ended⟩
  · intro j r hj hr
    by_cases heq : j = i
    · subst heq
      cases (Function.update_self ..).symm.trans hr
      exact hran
    · exact h.commit.ran j r hj ((hother heq).symm.trans hr)
  · exact ((h.results.waiting_lt hj).trans_le (h.commit.stageOk.length_le.trans hle)).ne

/-! ### One worker at a time -/

/-- A worker begins to commit. -/
theorem GoodWith.coordinate (h : GoodWith hC pic log gs stage)
    (hcoordinated : pic.sched.coordinated = false) :
    GoodWith hC (pic.withSched { pic.sched with coordinated := true }) log
      (Function.update gs w { gs w with stage := some .between }) .between := by
  have hnone : ∀ v, (gs v).stage = none := by
    intro v
    by_contra hne
    obtain ⟨s, hs⟩ := Option.ne_none_iff_exists'.mp hne
    have hc := (h.commit.own v s hs).2.1
    rw [hcoordinated] at hc
    cases hc
  obtain rfl := h.commit.idle hnone
  refine good_update (TasksOk.same (h.tasks.keep rfl rfl fun _ => rfl))
    ⟨fun u t hu => ?_, fun _ => rfl, h.commit.stageOk, h.commit.rolled, h.commit.halted,
      h.commit.ran⟩
    (ResultsOk.same (h.results.keep rfl rfl fun _ _ => ⟨rfl, rfl⟩)) (h.seenHalt.same id)
    (h.ended.same id)
  have hself : ∀ u', (Function.update (fun v => (gs v).stage) w (some .between) u').isSome →
      u' = w := by
    intro u' hu'
    by_contra hne
    rw [Function.update_of_ne hne, hnone u'] at hu'
    cases hu'
  obtain rfl : u = w := hself u (hu ▸ rfl)
  rw [Function.update_self] at hu
  cases hu
  exact ⟨rfl, rfl, hself⟩

/-- A worker does not commit any more. -/
theorem GoodWith.uncoordinate (h : GoodWith hC pic log gs stage)
    (hstage : (gs w).stage = some .between) :
    GoodWith hC (pic.withSched { pic.sched with coordinated := false }) log
      (Function.update gs w { gs w with stage := none }) .between := by
  obtain rfl := h.commit.stage_eq hstage
  have honly := (h.commit.own w _ hstage).2.2
  refine good_update (TasksOk.same (h.tasks.keep rfl rfl fun _ => rfl))
    ⟨fun u t hu => ?_, fun _ => rfl, h.commit.stageOk, h.commit.rolled, h.commit.halted,
      h.commit.ran⟩
    (ResultsOk.same (h.results.keep rfl rfl fun _ _ => ⟨rfl, rfl⟩)) (h.seenHalt.same id)
    (h.ended.same id)
  rcases update_eq_some hu with ⟨-, hx⟩ | ⟨hne, hu⟩
  · cases hx
  · exact absurd (honly u (hu ▸ rfl)) hne

/-! ### A transaction is committed -/

/-- **The next transaction is taken.** -/
theorem GoodWith.take (h : GoodWith hC pic log gs stage) (hstage : (gs w).stage = some .between)
    (hexecuted : pic.sched.status pic.sched.committed = .executed)
    (hhalted : pic.sched.halted = false) :
    GoodWith hC (pic.withSched { pic.sched.setStatus pic.sched.committed .committed with
        committed := pic.sched.committed + 1 }) log
      (Function.update gs w { gs w with stage := some (.taken pic.sched.committed) })
      (.taken pic.sched.committed) := by
  obtain rfl := h.commit.stage_eq hstage
  obtain ⟨hcommitted, hlimit, hgoes⟩ := h.commit.stageOk
  refine good_update (TasksOk.same (h.tasks.commit hhalted hexecuted))
    (h.commit.next hstage rfl ?_ h.commit.rolled h.commit.halted ?_)
    (ResultsOk.same ((h.results.setStage (by simp) (by simp)).keep rfl rfl fun _ _ => ⟨rfl, rfl⟩))
    (h.seenHalt.same id) (h.ended.same id)
  · refine ⟨⟨hcommitted, congrArg (· + 1) hcommitted, hhalted, hgoes hhalted⟩, hlimit,
      fun r hr => ?_⟩
    exact h.commit.ran _ r le_rfl hr
  · exact fun j r hj hr => h.commit.ran j r (Nat.le_of_succ_le hj) hr

/-- The last execution of the transaction is known. -/
theorem GoodWith.ready (h : GoodWith hC pic log gs stage) (hstage : (gs w).stage = some (.taken i))
    (hr : pic.record.recorded i = some r) :
    GoodWith hC pic log (Function.update gs w { gs w with stage := some (.ready i r) })
      (.ready i r) := by
  obtain rfl := h.commit.stage_eq hstage
  obtain ⟨hopen, hlimit, hran⟩ := h.commit.stageOk
  exact good_update (TasksOk.same h.tasks) (h.commit.next hstage rfl ⟨hopen, hlimit, hr, hran r hr⟩
    h.commit.rolled h.commit.halted h.commit.ran)
    (ResultsOk.same (h.results.setStage (by simp) (by simp))) (h.seenHalt.same id) (h.ended.same id)

theorem Open.lt_committed (h : Open env pic log i) : i < pic.sched.committed := by
  rw [h.committed, h.idx]
  exact Nat.lt_succ_self _

omit [DecidableEq W] in
/-- The record of the transaction that is being committed changes. -/
theorem sameRecord_waiting {x : Option (Recorded S C.ReadSet)}
    {mats : W → Option (Entry S × MatStep S)} (h : ResultsOk env pic log stage mats)
    (hi : log.length ≤ i) :
    SameRecord pic (pic.withRecord (pic.record.setRecorded i x)) (Waiting pic stage mats) :=
  fun _ hj => ⟨Function.update_of_ne ((h.waiting_lt hj).trans_le hi).ne .., rfl⟩

omit [DecidableEq W] in
theorem ran_setRecorded {x : Option (Recorded S C.ReadSet)} {stages : W → Option (Stage C)}
    (h : CommitOk hC pic log stages stage) (hi : i < pic.sched.committed) {j : TxnIndex}
    (hj : pic.sched.committed ≤ j) (hr : (pic.record.setRecorded i x).recorded j = some r) :
    Ran env j (hC.capturedReads.captured r.readSet) r.status := by
  refine h.ran j r hj ?_
  rw [← hr]
  exact (Function.update_of_ne (hi.trans_le hj).ne' ..).symm

/-- **The transaction is executed again, in the middle of its commit.** -/
theorem GoodWith.recordAgain {rs : C.ReadSet} {status : ExecutionStatus S}
    (h : GoodWith hC pic log gs stage) (hstage : (gs w).stage = some (.ready i r))
    (hran : Ran env i (hC.capturedReads.captured rs) status) :
    GoodWith hC (pic.withRecord (pic.record.setRecorded i (some ⟨rs, status⟩))) log
      (Function.update gs w { gs w with stage := some (.ready i ⟨rs, status⟩) })
      (.ready i ⟨rs, status⟩) := by
  obtain rfl := h.commit.stage_eq hstage
  obtain ⟨hopen, hlimit, -, -⟩ := h.commit.stageOk
  have hresults : ResultsOk env pic log (.ready i ⟨rs, status⟩) fun v => (gs v).mat :=
    h.results.setStage (by simp) (by simp)
  refine good_update (TasksOk.same h.tasks) (h.commit.next hstage rfl
    ⟨⟨hopen.idx, hopen.committed, hopen.halted, hopen.goesOn⟩, hlimit, Function.update_self ..,
      hran⟩ h.commit.rolled h.commit.halted
    fun j r hj hr => ran_setRecorded h.commit hopen.lt_committed hj hr)
    (ResultsOk.same (hresults.keep rfl rfl (sameRecord_waiting hresults hopen.idx.ge)))
    (h.seenHalt.same id) (h.ended.same id)

omit [DecidableEq W] in
/-- A transaction becomes the last one of the log, and is to be queued. -/
theorem ResultsOk.logEntry {mats : W → Option (Entry S × MatStep S)} {b : Bool}
    (h : ResultsOk env pic log stage mats) (hstage : ∀ e b, stage ≠ .logged e b)
    (hidx : e.idx = log.length) (hkept : Kept pic e) :
    ResultsOk env pic (log ++ [e]) (.logged e b) mats := by
  have hwaiting : ∀ {j}, Waiting pic (.logged e b) mats j ↔
      j = log.length ∨ Waiting pic stage mats j := by
    intro j
    constructor
    · rintro (hj | ⟨e', b', he', rfl⟩ | hj)
      · exact .inr (.inl hj)
      · cases he'
        exact .inl hidx
      · exact .inr (.inr (.inr hj))
    · rintro (rfl | hj | ⟨e', b', he', -⟩ | hj)
      · exact .inr (.inl ⟨e, b, rfl, hidx⟩)
      · exact .inl hj
      · exact absurd he' (hstage e' b')
      · exact .inr (.inr hj)
  have hold : ∀ {j : ℕ} {e' : Entry S}, log[j]? = some e' → (log ++ [e])[j]? = some e' :=
    fun he' => (List.getElem?_append_left (lt_of_log he')).trans he'
  refine ⟨h.length, h.nodup, fun j hj => ?_, fun e' b' he' => ?_, fun u e' s hu => ?_, h.unique,
    fun j hj hw => h.blank j hj ?_, fun j e' he' hw => ?_⟩
  · obtain ⟨e', hidx', he', hk⟩ := h.queued j hj
    exact ⟨e', hidx', hold he', hk⟩
  · cases he'
    refine ⟨?_, hkept, fun hmem => ?_⟩
    · rw [hidx, List.getElem?_concat_length]
    · exact (h.waiting_lt (.inl hmem)).ne hidx
  · obtain ⟨he', hs, hq, -⟩ := h.mat u e' s hu
    refine ⟨hold he', hs, hq, fun e'' b' he'' heq => ?_⟩
    cases he''
    exact (lt_of_log he').ne (heq.symm.trans hidx)
  · rw [List.length_append, List.length_singleton] at hw
    rcases hw with hw | hw
    · exact .inl (Nat.le_of_succ_le hw)
    · exact (hwaiting.mp hw).imp_left fun hj => hj.ge
  · rcases log_append he' with he' | ⟨rfl, -⟩
    · exact h.done j e' he' fun hj => hw (hwaiting.mpr (.inr hj))
    · exact absurd (hwaiting.mpr (.inl rfl)) hw

/-- **The commit of a transaction is through.** -/
theorem GoodWith.logEntry {limit : S.Limit} (h : GoodWith hC pic log gs stage)
    (hstage : (gs w).stage = some stage) (hnot : ∀ e b, stage ≠ .logged e b)
    (hopen : Open env pic log e.idx) (hran : Ran env e.idx e.reads e.status)
    (houtput : e.status.output? = some e.output) (hlimit : limit = limitAfter env (log ++ [e]))
    (hr : r.status.output? = some e.output)
    (hskips : skipsRest env (log ++ [e]) = isSkipRest r.status) :
    GoodWith hC ((pic.withLimit limit).withRecord (pic.record.setRecorded e.idx (some r)))
      (log ++ [e])
      (Function.update gs w { gs w with stage := some (.logged e (isSkipRest r.status)) })
      (.logged e (isSkipRest r.status)) := by
  have hlength : (log ++ [e]).length = log.length + 1 := List.length_append ..
  have hrolled := h.commit.rolled.append hopen.idx hran houtput hopen.goesOn
  have hresults : ResultsOk env
      ((pic.withLimit limit).withRecord (pic.record.setRecorded e.idx (some r))) log stage
      fun v => (gs v).mat :=
    h.results.keep rfl rfl (sameRecord_waiting h.results hopen.idx.ge)
  refine good_update (TasksOk.same h.tasks) (h.commit.next hstage rfl
    ⟨hopen.committed.trans hlength.symm, hlimit, ?_, hskips, r, Function.update_self .., rfl⟩
    hrolled (fun hh => ?_) fun j r hj hr => ran_setRecorded h.commit hopen.lt_committed hj hr)
    (ResultsOk.same (hresults.logEntry hnot hopen.idx ⟨r, Function.update_self .., hr⟩))
    (h.seenHalt.same id) (h.ended.same id)
  · rw [hlength, hopen.idx]
  · have hhalted : pic.sched.halted = true := hh
    rw [hopen.halted] at hhalted
    cases hhalted

theorem setRecorded_self {v : RecordView S C.ReadSet} (h : v.recorded i = some r) :
    v.setRecorded i (some r) = v := by
  rw [RecordView.setRecorded, ← h, Function.update_eq_self]

/-- The entry of a transaction with its last execution. -/
def entryOf (hC : C.Correct env) (i : TxnIndex) (r : Recorded S C.ReadSet) (o : Output S) :
    Entry S :=
  ⟨i, hC.capturedReads.captured r.readSet, r.status, o⟩

/-- The limit after a transaction. -/
def limitWith (hC : C.Correct env) (limit : S.Limit) (i : TxnIndex) (r : Recorded S C.ReadSet)
    (o : Output S) : S.Limit :=
  env.accumulateFeeStatement limit i o ((hC.capturedReads.captured r.readSet).map Prod.fst)

/-- **The fee of a transaction is accumulated**, and the block does not end with it. -/
theorem GoodWith.count {o : Output S} (h : GoodWith hC pic log gs stage)
    (hstage : (gs w).stage = some (.ready i r)) (ho : r.status.output? = some o)
    (hend : (decide (i < env.numTxns - 1) &&
      env.shouldEndBlockParallel (limitWith hC pic.limit i r o)) = false) :
    GoodWith hC (pic.withLimit (limitWith hC pic.limit i r o)) (log ++ [entryOf hC i r o])
      (Function.update gs w
        { gs w with stage := some (.logged (entryOf hC i r o) (isSkipRest r.status)) })
      (.logged (entryOf hC i r o) (isSkipRest r.status)) := by
  obtain rfl := h.commit.stage_eq hstage
  obtain ⟨hopen, hlimit, hr, hran⟩ := h.commit.stageOk
  have hafter : limitWith hC pic.limit i r o = limitAfter env (log ++ [entryOf hC i r o]) := by
    rw [limitAfter_append, hlimit]
    rfl
  have hgood := h.logEntry (e := entryOf hC i r o) hstage (by simp) hopen hran ho hafter ho (by
    rw [skipsRest_append, reachesLimit, ← hafter]
    exact (congrArg (isSkipRest r.status || ·) hend).trans (Bool.or_false _))
  rwa [show pic.record.setRecorded (entryOf hC i r o).idx (some r) = pic.record from
    setRecorded_self hr] at hgood

/-- The block ends with the transaction. -/
theorem GoodWith.countLast {o : Output S} (h : GoodWith hC pic log gs stage)
    (hstage : (gs w).stage = some (.ready i r)) (ho : r.status.output? = some o)
    (hend : (decide (i < env.numTxns - 1) &&
      env.shouldEndBlockParallel (limitWith hC pic.limit i r o)) = true) :
    GoodWith hC (pic.withLimit (limitWith hC pic.limit i r o)) log
      (Function.update gs w { gs w with stage := some (.counted (entryOf hC i r o) r) })
      (.counted (entryOf hC i r o) r) := by
  obtain rfl := h.commit.stage_eq hstage
  obtain ⟨hopen, hlimit, hr, hran⟩ := h.commit.stageOk
  have hafter : limitWith hC pic.limit i r o = limitAfter env (log ++ [entryOf hC i r o]) := by
    rw [limitAfter_append, hlimit]
    rfl
  refine good_update (TasksOk.same h.tasks) (h.commit.next hstage rfl
    ⟨⟨hopen.idx, hopen.committed, hopen.halted, hopen.goesOn⟩, hafter, hr, rfl, ho, hran, ?_⟩
    h.commit.rolled h.commit.halted h.commit.ran)
    (ResultsOk.same ((h.results.setStage (by simp) (by simp)).keep rfl rfl fun _ _ => ⟨rfl, rfl⟩))
    (h.seenHalt.same id) (h.ended.same id)
  rw [reachesLimit, ← hafter]
  exact hend

theorem output_toSkipRest (status : ExecutionStatus S) :
    (toSkipRest status).output? = status.output? := by
  cases status <;> rfl

theorem isSkipRest_toSkipRest {status : ExecutionStatus S} {o : Output S}
    (h : status.output? = some o) : isSkipRest (toSkipRest status) = true := by
  cases status with
  | success o => rfl
  | skipRest o => rfl
  | abort err => cases h
  | speculativeExecutionAbortError msg => cases h
  | delayedFieldsCodeInvariantError msg => cases h

/-- **The rest of the block is skipped**, as its limit is reached. -/
theorem GoodWith.skipRest (h : GoodWith hC pic log gs stage)
    (hstage : (gs w).stage = some (.counted e r)) :
    GoodWith hC (pic.withRecord
        (pic.record.setRecorded e.idx (some { r with status := toSkipRest r.status })))
      (log ++ [e]) (Function.update gs w { gs w with stage := some (.logged e true) })
      (.logged e true) := by
  obtain rfl := h.commit.stage_eq hstage
  obtain ⟨hopen, hlimit, hr, hstatus, houtput, hran, hreach⟩ := h.commit.stageOk
  have hskip : isSkipRest (toSkipRest r.status) = true :=
    isSkipRest_toSkipRest (hstatus ▸ houtput)
  have hgood := h.logEntry (r := { r with status := toSkipRest r.status }) hstage (by simp) hopen
    hran houtput hlimit ((output_toSkipRest _).trans (hstatus ▸ houtput)) (by
      rw [skipsRest_append, hreach, Bool.or_true]
      exact hskip.symm)
  rwa [show isSkipRest ({ r with status := toSkipRest r.status } : Recorded S C.ReadSet).status =
    true from hskip] at hgood

/-! ### A transaction is queued -/

/-- The scheduler is halted after the last transaction. -/
theorem GoodWith.halt {b : Bool} {status : TxnIndex → TxnStatus} (h : GoodWith hC pic log gs stage)
    (hstage : (gs w).stage = some (.logged e b)) (hlast : e.idx + 1 = env.numTxns ∨ b = true) :
    GoodWith hC (pic.withSched { pic.sched with halted := true, status }) log
      (Function.update gs w { gs w with seenHalt := true }) (.logged e b) := by
  obtain rfl := h.commit.stage_eq hstage
  obtain ⟨hcommitted, hlimit, hidx, hskips, hr⟩ := h.commit.stageOk
  refine good_update (TasksOk.same (h.tasks.halt status)) ?_
    (ResultsOk.same (h.results.keep rfl rfl fun _ _ => ⟨rfl, rfl⟩))
    (h.seenHalt.update (fun _ => rfl) fun _ => .inr rfl) (h.ended.same id)
  rw [show ({ gs w with seenHalt := true } : Ghost C).stage = some (.logged e b) from hstage]
  refine h.commit.next hstage rfl ⟨hcommitted, hlimit, hidx, hskips, hr⟩ h.commit.rolled
    (fun _ => ?_) h.commit.ran
  exact hlast.imp hidx.symm.trans hskips.trans

section Enqueue

variable {mats : W → Option (Entry S × MatStep S)} {b : Bool}

omit [DecidableEq W] in
/-- The transaction waits for its result before it is queued and after it. -/
theorem waiting_enqueue :
    Waiting (pic.withSched { pic.sched with queue := pic.sched.queue ++ [e.idx] }) .between mats i ↔
      Waiting pic (.logged e b) mats i := by
  constructor
  · rintro (hi | ⟨e', b', he', -⟩ | hi)
    · rcases List.mem_append.mp hi with hi | hi
      · exact .inl hi
      · exact .inr (.inl ⟨e, b, rfl, (List.mem_singleton.mp hi).symm⟩)
    · cases he'
    · exact .inr (.inr hi)
  · rintro (hi | ⟨e', b', he', rfl⟩ | hi)
    · exact .inl (List.mem_append_left _ hi)
    · cases he'
      exact .inl (List.mem_append_right _ List.mem_cons_self)
    · exact .inr (.inr hi)

omit [DecidableEq W] in
theorem ResultsOk.enqueue (h : ResultsOk env pic log (.logged e b) mats) :
    ResultsOk env (pic.withSched { pic.sched with queue := pic.sched.queue ++ [e.idx] }) log
      .between mats := by
  obtain ⟨hlog, hkept, hnotin⟩ := h.toQueue e b rfl
  refine ⟨h.length, ?_, fun j hj => ?_, fun e' b' he' => (by cases he'), fun u e' s hu => ?_,
    h.unique, fun j hj hw => h.blank j hj (hw.imp_right waiting_enqueue.mp),
    fun j e' he' hw => h.done j e' he' fun hj => hw (waiting_enqueue.mpr hj)⟩
  · exact h.nodup.append (List.nodup_singleton _) (List.disjoint_singleton.mpr hnotin)
  · rcases List.mem_append.mp hj with hj | hj
    · exact h.queued j hj
    · cases List.mem_singleton.mp hj
      exact ⟨e, rfl, hlog, hkept⟩
  · obtain ⟨he', hs, hq, hsep⟩ := h.mat u e' s hu
    refine ⟨he', hs, fun hmem => ?_, fun e'' b' he'' => (by cases he'')⟩
    rcases List.mem_append.mp hmem with hmem | hmem
    · exact hq hmem
    · exact hsep e b rfl (List.mem_singleton.mp hmem).symm

end Enqueue

/-- **A committed transaction is queued.** -/
theorem GoodWith.enqueue {b : Bool} (h : GoodWith hC pic log gs stage)
    (hstage : (gs w).stage = some (.logged e b)) (hended : (gs w).ended = false)
    (hskips : pic.sched.halted = false → b = false) :
    GoodWith hC (pic.withSched { pic.sched with queue := pic.sched.queue ++ [e.idx] }) log
      (Function.update gs w { gs w with stage := some .between }) .between := by
  obtain rfl := h.commit.stage_eq hstage
  obtain ⟨hcommitted, hlimit, -, hb, -⟩ := h.commit.stageOk
  refine good_update (TasksOk.same (h.tasks.keep rfl rfl fun _ => rfl)) (h.commit.next hstage rfl
    ⟨hcommitted, hlimit, fun hh => hb.trans (hskips hh)⟩ h.commit.rolled h.commit.halted
    h.commit.ran) (ResultsOk.same h.results.enqueue) (h.seenHalt.same id) fun hall => ?_
  -- the worker itself has not come to its end
  have hw := hall w
  rw [Function.update_self] at hw
  rw [show ({ gs w with stage := some .between } : Ghost C).ended = false from hended] at hw
  cases hw

end BlockStm

end Aptos

end RelayContracts
