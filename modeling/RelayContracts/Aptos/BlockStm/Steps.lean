import RelayContracts.Aptos.BlockStm.Invariant
import Mathlib.Order.Nat

/-!
# The steps of the workers

What a step of a worker does to the parts of the invariant. Each part says what it depends on
(`TasksOk.keep`, `CommitOk.keep`, `ResultsOk.keep`), and is kept by all steps that do not change
that; so a step has to be followed through only the parts it is about.

## Main results

* `TasksOk.give`, `TasksOk.release`, `TasksOk.commit` — the tasks of the workers
* `TasksOk.keep`, `CommitOk.keep`, `ResultsOk.keep` — what the parts depend on
* `CommitOk.next` — the commit of a transaction goes on
* `good_update` — the invariant, from its parts
-/

namespace RelayContracts

namespace Aptos

namespace BlockStm

open BlockExecutor

variable {S : Sig} {C : Components S} {env : Env S} {hC : C.Correct env} {pic pic' : Picture C}
  {W : Type} [DecidableEq W] {gs : W → Ghost C} {w : W} {i : TxnIndex} {log : List (Entry S)}
  {stage stage' : Stage C} {e : Entry S}

/-! ### Tasks -/

section Tasks

variable {v v' : SchedulerView} {tasks : W → Option TxnIndex} {Wave Condvar : Type}

omit [DecidableEq W] in
theorem TasksOk.keep (h : TasksOk v tasks) (hcommitted : v'.committed = v.committed)
    (hhalted : v'.halted = v.halted) (hstatus : v.halted = false → v'.status = v.status) :
    TasksOk v' tasks where
  busy := fun hh w i hw => by
    rw [hstatus (hhalted ▸ hh)]
    exact h.busy (hhalted ▸ hh) w i hw
  unique := fun hh => h.unique (hhalted ▸ hh)
  uncommitted := fun w i hw => hcommitted ▸ h.uncommitted w i hw
  committed := fun hh i hi => by
    rw [hstatus (hhalted ▸ hh)]
    exact h.committed (hhalted ▸ hh) i (hcommitted ▸ hi)

omit [DecidableEq W] in
/-- The scheduler is halted: nothing is asked of the transactions any more. -/
theorem TasksOk.halt (h : TasksOk v tasks) (status : TxnIndex → TxnStatus) :
    TasksOk { v with halted := true, status } tasks where
  busy := fun hh => by cases hh
  unique := fun hh => by cases hh
  uncommitted := h.uncommitted
  committed := fun hh => by cases hh

theorem update_eq_some {A : Type} {f : W → Option A} {x : Option A} {u : W} {a : A}
    (h : Function.update f w x u = some a) : u = w ∧ x = some a ∨ u ≠ w ∧ f u = some a := by
  by_cases hu : u = w
  · subst hu
    rw [Function.update_self] at h
    exact .inl ⟨rfl, h⟩
  · rw [Function.update_of_ne hu] at h
    exact .inr ⟨hu, h⟩

/-- A worker gets the task to execute or to abort a transaction. -/
theorem TasksOk.start (h : TasksOk v tasks) (hhalted : v.halted = false)
    (hbusy : v.status i ≠ .busy) (hcommitted : v.status i ≠ .committed) :
    TasksOk (v.setStatus i .busy) (Function.update tasks w (some i)) where
  busy := fun hh u j hu => by
    rcases update_eq_some hu with ⟨-, hx⟩ | ⟨-, hu⟩
    · cases hx
      exact Function.update_self ..
    · have hj := h.busy hh u j hu
      have hne : j ≠ i := by
        rintro rfl
        exact hbusy hj
      exact (Function.update_of_ne hne ..).trans hj
  unique := fun hh u u' j hu hu' => by
    have hother : ∀ x, tasks x ≠ some i := fun x hx => hbusy (h.busy hhalted x i hx)
    rcases update_eq_some hu with ⟨huw, hx⟩ | ⟨-, hu₁⟩
    · cases hx
      rcases update_eq_some hu' with ⟨huw', -⟩ | ⟨-, hu₁'⟩
      · exact huw.trans huw'.symm
      · exact absurd hu₁' (hother u')
    · rcases update_eq_some hu' with ⟨-, hx⟩ | ⟨-, hu₁'⟩
      · cases hx
        exact absurd hu₁ (hother u)
      · exact h.unique hh u u' j hu₁ hu₁'
  uncommitted := fun u j hu => by
    rcases update_eq_some hu with ⟨-, hx⟩ | ⟨-, hu⟩
    · cases hx
      by_contra hlt
      exact hcommitted (h.committed hhalted i (Nat.lt_of_not_le hlt))
    · exact h.uncommitted u j hu
  committed := fun hh j hj => by
    have hstatus := h.committed hh j hj
    have hne : j ≠ i := by
      rintro rfl
      exact hcommitted hstatus
    exact (Function.update_of_ne hne ..).trans hstatus

/-- A worker is through with its task. -/
theorem TasksOk.release {s : TxnStatus} (h : TasksOk v tasks) (hw : tasks w = some i) :
    TasksOk (v.setStatus i s) (Function.update tasks w none) where
  busy := fun hh u j hu => by
    rcases update_eq_some hu with ⟨-, hx⟩ | ⟨hne, hu⟩
    · cases hx
    · have hji : j ≠ i := by
        rintro rfl
        exact hne (h.unique hh u w j hu hw)
      exact (Function.update_of_ne hji ..).trans (h.busy hh u j hu)
  unique := fun hh u u' j hu hu' => by
    rcases update_eq_some hu with ⟨-, hx⟩ | ⟨-, hu⟩
    · cases hx
    · rcases update_eq_some hu' with ⟨-, hx⟩ | ⟨-, hu'⟩
      · cases hx
      · exact h.unique hh u u' j hu hu'
  uncommitted := fun u j hu => by
    rcases update_eq_some hu with ⟨-, hx⟩ | ⟨-, hu⟩
    · cases hx
    · exact h.uncommitted u j hu
  committed := fun hh j hj => by
    have hne : j ≠ i := (hj.trans_le (h.uncommitted w i hw)).ne
    exact (Function.update_of_ne hne ..).trans (h.committed hh j hj)

/-- The transaction that a task is to execute. -/
def taskOf : SchedulerTask Wave Condvar → Option TxnIndex
  | .executionTask idx _ .execution => some idx
  | _ => none

/-- A worker is given a task. -/
theorem TasksOk.give {task : SchedulerTask Wave Condvar} (h : TasksOk v tasks)
    (hw : tasks w = none) (hmay : v.MayGive task) (hbecomes : (v.give task).Becomes v') :
    TasksOk v' (Function.update tasks w (taskOf task)) := by
  obtain ⟨status, hstatus, rfl⟩ := hbecomes
  have hsame : TasksOk v (Function.update tasks w none) := by
    rw [← hw, Function.update_eq_self]
    exact h
  cases task with
  | executionTask idx incarnation kind =>
    cases kind with
    | execution =>
      refine (h.start hmay.1 ?_ ?_).keep rfl rfl hstatus
      · rw [hmay.2]
        exact fun hx => by cases hx
      · rw [hmay.2]
        exact fun hx => by cases hx
    | wakeup condvar => exact hsame.keep rfl rfl hstatus
  | validationTask idx incarnation wave => exact hsame.keep rfl rfl hstatus
  | retry => exact hsame.keep rfl rfl hstatus
  | done => exact hsame.keep rfl rfl hstatus

omit [DecidableEq W] in
/-- The next transaction is committed. -/
theorem TasksOk.commit (h : TasksOk v tasks) (hhalted : v.halted = false)
    (hexecuted : v.status v.committed = .executed) :
    TasksOk { v.setStatus v.committed .committed with committed := v.committed + 1 } tasks where
  busy := fun hh u j hu => by
    have hj := h.busy hh u j hu
    have hne : j ≠ v.committed := by
      rintro rfl
      rw [hexecuted] at hj
      cases hj
    exact (Function.update_of_ne hne ..).trans hj
  unique := h.unique
  uncommitted := fun u j hu => by
    refine lt_of_le_of_ne (h.uncommitted u j hu) ?_
    rintro rfl
    have hj := h.busy hhalted u _ hu
    rw [hexecuted] at hj
    cases hj
  committed := fun hh j hj => by
    rcases Nat.lt_succ_iff_lt_or_eq.mp hj with hj | rfl
    · exact (Function.update_of_ne hj.ne ..).trans (h.committed hh j hj)
    · exact Function.update_self ..

end Tasks

/-! ### What the parts depend on -/

theorem update_proj {A : Type} (f : Ghost C → A) (gs : W → Ghost C) (w : W) (g : Ghost C) :
    (fun v => f (Function.update gs w g v)) = Function.update (fun v => f (gs v)) w (f g) := by
  funext v
  by_cases hv : v = w
  · subst hv
    rw [Function.update_self, Function.update_self]
  · rw [Function.update_of_ne hv, Function.update_of_ne hv]

/-- The invariant, from its parts. -/
theorem good_update {g : Ghost C}
    (htasks : TasksOk pic.sched (Function.update (fun v => (gs v).task) w g.task))
    (hcommit : CommitOk hC pic log (Function.update (fun v => (gs v).stage) w g.stage) stage)
    (hresults : ResultsOk env pic log stage (Function.update (fun v => (gs v).mat) w g.mat))
    (hseen : SeenOk pic (Function.update (fun v => (gs v).seenHalt) w g.seenHalt))
    (hended : EndedOk pic (Function.update (fun v => (gs v).ended) w g.ended)) :
    GoodWith hC pic log (Function.update gs w g) stage where
  tasks := by rwa [update_proj Ghost.task]
  commit := by rwa [update_proj Ghost.stage]
  results := by rwa [update_proj Ghost.mat]
  seenHalt := by rwa [update_proj Ghost.seenHalt]
  ended := by rwa [update_proj Ghost.ended]

theorem TasksOk.same {v : SchedulerView} (h : TasksOk v fun u => (gs u).task) :
    TasksOk v (Function.update (fun u => (gs u).task) w (gs w).task) := by
  rwa [Function.update_eq_self w fun u => (gs u).task]

theorem CommitOk.same (h : CommitOk hC pic log (fun v => (gs v).stage) stage) :
    CommitOk hC pic log (Function.update (fun v => (gs v).stage) w (gs w).stage) stage := by
  rwa [Function.update_eq_self w fun v => (gs v).stage]

theorem ResultsOk.same (h : ResultsOk env pic log stage fun v => (gs v).mat) :
    ResultsOk env pic log stage (Function.update (fun v => (gs v).mat) w (gs w).mat) := by
  rwa [Function.update_eq_self w fun v => (gs v).mat]

theorem SeenOk.update {seen : W → Bool} {b : Bool} (h : SeenOk pic seen)
    (hhalted : pic.sched.halted = true → pic'.sched.halted = true)
    (hb : b = true → seen w = true ∨ pic'.sched.halted = true) :
    SeenOk pic' (Function.update seen w b) := by
  intro v hv
  by_cases heq : v = w
  · subst heq
    rw [Function.update_self] at hv
    exact (hb hv).elim (fun hs => hhalted (h v hs)) id
  · rw [Function.update_of_ne heq] at hv
    exact hhalted (h v hv)

theorem SeenOk.same {seen : W → Bool} (h : SeenOk pic seen)
    (hhalted : pic.sched.halted = true → pic'.sched.halted = true) :
    SeenOk pic' (Function.update seen w (seen w)) :=
  h.update hhalted .inl

theorem EndedOk.same {ended : W → Bool} (h : EndedOk pic ended)
    (hqueue : pic.sched.queue = [] → pic'.sched.queue = []) :
    EndedOk pic' (Function.update ended w (ended w)) := by
  rw [Function.update_eq_self]
  exact fun hall => hqueue (h hall)

/-- The record of these transactions is the same. -/
def SameRecord (pic pic' : Picture C) (p : TxnIndex → Prop) : Prop :=
  ∀ i, p i → pic'.record.recorded i = pic.record.recorded i ∧
    pic'.record.materialized i = pic.record.materialized i

theorem Kept.keep {p : TxnIndex → Prop} (h : Kept pic e) (hrecord : SameRecord pic pic' p)
    (hp : p e.idx) : Kept pic' e := by
  obtain ⟨r, hr, hout⟩ := h
  exact ⟨r, ((hrecord _ hp).1).trans hr, hout⟩

theorem MatStepOk.keep {p : TxnIndex → Prop} {step : MatStep S} (h : MatStepOk pic e step)
    (hrecord : SameRecord pic pic' p) (hp : p e.idx) : MatStepOk pic' e step := by
  cases step with
  | popped => exact Kept.keep h hrecord hp
  | incorporated final =>
    exact ⟨h.1.keep hrecord hp, ((hrecord _ hp).2).trans h.2.1, h.2.2⟩
  | outputTaken final => exact h

omit [DecidableEq W] in
/-- The results depend on the queue, the results and the record of what has no result yet. -/
theorem ResultsOk.keep {mats : W → Option (Entry S × MatStep S)}
    (h : ResultsOk env pic log stage mats) (hqueue : pic'.sched.queue = pic.sched.queue)
    (hresults : pic'.results = pic.results)
    (hrecord : SameRecord pic pic' (Waiting pic stage mats)) :
    ResultsOk env pic' log stage mats := by
  have hwaiting : Waiting pic' stage mats = Waiting pic stage mats := by
    funext i
    rw [Waiting, hqueue]
    rfl
  refine ⟨hresults ▸ h.length, hqueue ▸ h.nodup, fun i hi => ?_, fun e b he => ?_,
    fun u e s hu => ?_, h.unique, ?_, ?_⟩
  · rw [hqueue] at hi
    obtain ⟨e, rfl, he, hk⟩ := h.queued i hi
    exact ⟨e, rfl, he, hk.keep hrecord (.inl hi)⟩
  · obtain ⟨hlog, hk, hq⟩ := h.toQueue e b he
    exact ⟨hlog, hk.keep hrecord (.inr (.inl ⟨e, b, he, rfl⟩)), hqueue ▸ hq⟩
  · obtain ⟨hlog, hs, hq, hsep⟩ := h.mat u e s hu
    exact ⟨hlog, hs.keep hrecord (.inr (.inr ⟨u, e, s, hu, rfl⟩)), hqueue ▸ hq, hsep⟩
  · rw [hwaiting, hresults]
    exact h.blank
  · rw [hwaiting, hresults]
    exact h.done

section

variable {mats : W → Option (Entry S × MatStep S)}

omit [DecidableEq W] in
theorem ResultsOk.waiting_lt (h : ResultsOk env pic log stage mats)
    (hi : Waiting pic stage mats i) : i < log.length := by
  rcases hi with hi | ⟨e, b, he, rfl⟩ | ⟨u, e, s, hu, rfl⟩
  · obtain ⟨e, -, he, -⟩ := h.queued i hi
    exact lt_of_log he
  · exact lt_of_log (h.toQueue e b he).1
  · exact lt_of_log (h.mat u e s hu).1

omit [DecidableEq W] in
/-- For the results only the stage at which a transaction is to be queued matters. -/
theorem ResultsOk.setStage (h : ResultsOk env pic log stage mats)
    (hstage : ∀ e b, stage ≠ .logged e b) (hstage' : ∀ e b, stage' ≠ .logged e b) :
    ResultsOk env pic log stage' mats := by
  have hwaiting : ∀ j, Waiting pic stage' mats j ↔ Waiting pic stage mats j := by
    intro j
    refine or_congr_right (or_congr_left (iff_of_false ?_ ?_))
    · rintro ⟨e, b, he, -⟩
      exact hstage' e b he
    · rintro ⟨e, b, he, -⟩
      exact hstage e b he
  refine ⟨h.length, h.nodup, h.queued, fun e b he => absurd he (hstage' e b), fun u e s hu => ?_,
    h.unique, fun j hj hw => h.blank j hj (hw.imp_right (hwaiting j).mp),
    fun j e he hw => h.done j e he fun hj => hw ((hwaiting j).mpr hj)⟩
  obtain ⟨hlog, hs, hq, -⟩ := h.mat u e s hu
  exact ⟨hlog, hs, hq, fun e' b he' => absurd he' (hstage' e' b)⟩

end

theorem StageOk.length_le (h : StageOk hC pic log stage) : log.length ≤ pic.sched.committed := by
  cases stage with
  | between => exact h.1.ge
  | taken i => exact h.1.committed ▸ Nat.le_succ _
  | ready i r => exact h.1.committed ▸ Nat.le_succ _
  | counted e r => exact h.1.committed ▸ Nat.le_succ _
  | logged e b => exact h.1.ge

theorem Open.keep (h : Open env pic log i) (hcommitted : pic'.sched.committed = pic.sched.committed)
    (hhalted : pic'.sched.halted = pic.sched.halted) : Open env pic' log i :=
  ⟨h.idx, hcommitted.trans h.committed, hhalted.trans h.halted, h.goesOn⟩

/-- A stage depends on the scheduler, the limit and the record of the transaction. -/
theorem StageOk.keep (h : StageOk hC pic log stage)
    (hcommitted : pic'.sched.committed = pic.sched.committed)
    (hhalted : pic'.sched.halted = pic.sched.halted) (hlimit : pic'.limit = pic.limit)
    (hrecord : ∀ j < pic.sched.committed,
      log.length ≤ j ∨ (∃ e b, stage = .logged e b ∧ e.idx = j) →
      pic'.record.recorded j = pic.record.recorded j) : StageOk hC pic' log stage := by
  have hopen : ∀ {j}, Open env pic log j → pic'.record.recorded j = pic.record.recorded j := by
    intro j hj
    refine hrecord j ?_ (.inl hj.idx.ge)
    rw [hj.committed, hj.idx]
    exact Nat.lt_succ_self _
  cases stage with
  | between =>
    rw [StageOk, hcommitted, hlimit, hhalted]
    exact h
  | taken j =>
    refine ⟨h.1.keep hcommitted hhalted, hlimit.trans h.2.1, ?_⟩
    rw [hopen h.1]
    exact h.2.2
  | ready j r =>
    refine ⟨h.1.keep hcommitted hhalted, hlimit.trans h.2.1, ?_⟩
    rw [hopen h.1]
    exact h.2.2
  | counted e r =>
    refine ⟨h.1.keep hcommitted hhalted, hlimit.trans h.2.1, ?_⟩
    rw [hopen h.1]
    exact h.2.2
  | logged e b =>
    obtain ⟨hc, hl, hidx, hskips, hr⟩ := h
    refine ⟨hcommitted.trans hc, hlimit.trans hl, hidx, hskips, ?_⟩
    rw [hrecord e.idx (by rw [hc, ← hidx]; exact Nat.lt_succ_self _) (.inr ⟨e, b, rfl, rfl⟩)]
    exact hr

section

variable {stages : W → Option (Stage C)}

omit [DecidableEq W] in
theorem CommitOk.keep (h : CommitOk hC pic log stages stage)
    (hcommitted : pic'.sched.committed = pic.sched.committed)
    (hhalted : pic'.sched.halted = pic.sched.halted)
    (hcoordinated : pic'.sched.coordinated = pic.sched.coordinated)
    (hlimit : pic'.limit = pic.limit)
    (hrecord : ∀ j < pic.sched.committed,
      log.length ≤ j ∨ (∃ e b, stage = .logged e b ∧ e.idx = j) →
      pic'.record.recorded j = pic.record.recorded j)
    (hran : ∀ j r, pic.sched.committed ≤ j → pic'.record.recorded j = some r →
      Ran env j (hC.capturedReads.captured r.readSet) r.status) :
    CommitOk hC pic' log stages stage where
  own := hcoordinated ▸ h.own
  idle := h.idle
  stageOk := h.stageOk.keep hcommitted hhalted hlimit hrecord
  rolled := h.rolled
  halted := hhalted ▸ h.halted
  ran := hcommitted ▸ hran

omit [DecidableEq W] in
/-- Only the worker that commits has a stage. -/
theorem CommitOk.stage_eq {s : Stage C} (h : CommitOk hC pic log stages stage)
    (hw : stages w = some s) : stage = s :=
  (h.own w s hw).1.symm

/-- A commit goes on. -/
theorem CommitOk.next {s s' : Stage C} {log' : List (Entry S)}
    (h : CommitOk hC pic log stages stage) (hw : stages w = some s)
    (hcoordinated : pic'.sched.coordinated = pic.sched.coordinated)
    (hstage : StageOk hC pic' log' s') (hrolled : Rolled env log')
    (hhalted : pic'.sched.halted = true → Complete env log')
    (hran : ∀ j r, pic'.sched.committed ≤ j → pic'.record.recorded j = some r →
      Ran env j (hC.capturedReads.captured r.readSet) r.status) :
    CommitOk hC pic' log' (Function.update stages w (some s')) s' where
  own := fun u t hu => by
    obtain ⟨-, hc, honly⟩ := h.own w s hw
    have hself : ∀ u', (Function.update stages w (some s') u').isSome → u' = w := by
      intro u' hu'
      by_contra hne
      rw [Function.update_of_ne hne] at hu'
      exact hne (honly u' hu')
    obtain rfl : u = w := hself u (hu ▸ rfl)
    rw [Function.update_self] at hu
    cases hu
    exact ⟨rfl, hcoordinated.trans hc, hself⟩
  idle := fun hall => by
    have hx := hall w
    rw [Function.update_self] at hx
    cases hx
  stageOk := hstage
  rolled := hrolled
  halted := hhalted
  ran := hran

end

end BlockStm

end Aptos

end RelayContracts
