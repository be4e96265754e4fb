import RelayContracts.Aptos.BlockStm.Commits

/-!
# Materialization keeps the invariant

A transaction of the log is taken from the queue by one worker, which materializes it and stores its
result. A transaction of the log without a result is in one place only: in the queue, with the
worker that is going to queue it, or with a worker that materializes it.

## Main results

* `ResultsOk.pop`, `ResultsOk.setMat`, `ResultsOk.store` — the part of the invariant this is about
* `GoodWith.pop`, `GoodWith.materialize`, `GoodWith.store` — from the queue to the result
* `GoodWith.finish` — a worker comes to its end with an empty queue
-/

namespace RelayContracts

namespace Aptos

namespace BlockStm

open BlockExecutor

variable {S : Sig} {C : Components S} {env : Env S} {hC : C.Correct env} {pic pic' : Picture C}
  {W : Type} [DecidableEq W] {gs : W → Ghost C} {w : W} {i : TxnIndex} {log : List (Entry S)}
  {stage : Stage C} {e : Entry S} {step step' : MatStep S}

/-- What a step of the materialization of a transaction does to the record. -/
structure Materializes (pic pic' : Picture C) (i : TxnIndex) : Prop where
  sched : pic'.sched = pic.sched
  limit : pic'.limit = pic.limit
  results : pic'.results = pic.results
  record : SameRecord pic pic' (· ≠ i)

/-- A picture with another result. -/
def Picture.withResult (pic : Picture C) (i : TxnIndex) (final : Final S) : Picture C :=
  { pic with results := pic.results.set i final }

/-! ### The results -/

section Mats

variable {mats : W → Option (Entry S × MatStep S)} {final : Final S}

theorem waiting_setMat (hw : mats w = some (e, step)) (hm : Materializes pic pic' e.idx) :
    Waiting pic' stage (Function.update mats w (some (e, step'))) i ↔ Waiting pic stage mats i := by
  rw [Waiting, hm.sched]
  refine or_congr_right (or_congr_right ⟨?_, ?_⟩)
  · rintro ⟨u, e', s, hu, hi⟩
    rcases update_eq_some hu with ⟨-, hx⟩ | ⟨-, hu⟩
    · cases hx
      exact ⟨w, e, step, hw, hi⟩
    · exact ⟨u, e', s, hu, hi⟩
  · rintro ⟨u, e', s, hu, hi⟩
    by_cases huw : u = w
    · subst huw
      cases hw.symm.trans hu
      exact ⟨u, e, step', Function.update_self .., hi⟩
    · exact ⟨u, e', s, (Function.update_of_ne huw ..).trans hu, hi⟩

/-- A worker that materializes a transaction goes on with it. -/
theorem ResultsOk.setMat (h : ResultsOk env pic log stage mats) (hw : mats w = some (e, step))
    (hm : Materializes pic pic' e.idx) (hstep : MatStepOk pic' e step') :
    ResultsOk env pic' log stage (Function.update mats w (some (e, step'))) := by
  -- the transaction that a worker is at is the same as before
  have hold : ∀ {u e' s}, Function.update mats w (some (e, step')) u = some (e', s) →
      ∃ s', mats u = some (e', s') := by
    intro u e' s hu
    rcases update_eq_some hu with ⟨rfl, hx⟩ | ⟨-, hu⟩
    · cases hx
      exact ⟨step, hw⟩
    · exact ⟨s, hu⟩
  obtain ⟨-, -, hnotin, hsep⟩ := h.mat w e step hw
  refine ⟨hm.results ▸ h.length, hm.sched ▸ h.nodup, fun j hj => ?_, fun e' b he' => ?_,
    fun u e' s hu => ?_, fun u e' s u' e'' s' hu hu' heq => ?_, fun j hj hwait => ?_,
    fun j e' he' hwait => ?_⟩
  · rw [hm.sched] at hj
    obtain ⟨e', rfl, he', hk⟩ := h.queued j hj
    exact ⟨e', rfl, he', hk.keep hm.record fun heq => hnotin (heq ▸ hj)⟩
  · obtain ⟨hlog, hk, hq⟩ := h.toQueue e' b he'
    exact ⟨hlog, hk.keep hm.record (hsep e' b he'), hm.sched ▸ hq⟩
  · obtain ⟨s', hs'⟩ := hold hu
    obtain ⟨hlog, -, hq, hsep'⟩ := h.mat u e' s' hs'
    refine ⟨hlog, ?_, hm.sched ▸ hq, hsep'⟩
    rcases update_eq_some hu with ⟨-, hx⟩ | ⟨hne, hu⟩
    · cases hx
      exact hstep
    · exact (h.mat u e' s hu).2.1.keep hm.record fun heq => hne (h.unique u e' s w e step hu hw heq)
  · obtain ⟨t, ht⟩ := hold hu
    obtain ⟨t', ht'⟩ := hold hu'
    exact h.unique u e' t u' e'' t' ht ht' heq
  · rw [hm.results]
    exact h.blank j hj (hwait.imp_right (waiting_setMat hw hm).mp)
  · rw [hm.results]
    exact h.done j e' he' fun hj => hwait ((waiting_setMat hw hm).mpr hj)

theorem waiting_pop (hnodup : pic.sched.queue.Nodup) (hw : mats w = none)
    (he : e.idx ∈ pic.sched.queue) :
    Waiting (pic.withSched { pic.sched with queue := pic.sched.queue.erase e.idx }) stage
      (Function.update mats w (some (e, step))) i ↔ Waiting pic stage mats i := by
  constructor
  · rintro (hi | hi | ⟨u, e', s, hu, hi⟩)
    · exact .inl (List.mem_of_mem_erase hi)
    · exact .inr (.inl hi)
    · rcases update_eq_some hu with ⟨-, hx⟩ | ⟨-, hu⟩
      · cases hx
        exact .inl (hi ▸ he)
      · exact .inr (.inr ⟨u, e', s, hu, hi⟩)
  · rintro (hi | hi | ⟨u, e', s, hu, hi⟩)
    · by_cases heq : i = e.idx
      · exact .inr (.inr ⟨w, e, step, Function.update_self .., heq.symm⟩)
      · exact .inl (hnodup.mem_erase_iff.mpr ⟨heq, hi⟩)
    · exact .inr (.inl hi)
    · have huw : u ≠ w := by
        rintro rfl
        cases hw.symm.trans hu
      exact .inr (.inr ⟨u, e', s, (Function.update_of_ne huw ..).trans hu, hi⟩)

/-- A worker takes a transaction from the queue. -/
theorem ResultsOk.pop (h : ResultsOk env pic log stage mats) (hw : mats w = none)
    (he : e.idx ∈ pic.sched.queue) (hlog : log[e.idx]? = some e) (hkept : Kept pic e) :
    ResultsOk env (pic.withSched { pic.sched with queue := pic.sched.queue.erase e.idx }) log stage
      (Function.update mats w (some (e, .popped))) := by
  have hmem : ∀ {j}, j ∈ pic.sched.queue.erase e.idx ↔ j ≠ e.idx ∧ j ∈ pic.sched.queue :=
    h.nodup.mem_erase_iff
  have hother : ∀ {u e' s}, mats u = some (e', s) → e'.idx ≠ e.idx :=
    fun hu heq => (h.mat _ _ _ hu).2.2.1 (heq ▸ he)
  refine ⟨h.length, h.nodup.erase _, fun j hj => h.queued j (hmem.mp hj).2, fun e' b he' => ?_,
    fun u e' s hu => ?_, fun u e' s u' e'' s' hu hu' heq => ?_,
    fun j hj hwait => h.blank j hj (hwait.imp_right (waiting_pop h.nodup hw he).mp),
    fun j e' he' hwait => h.done j e' he' fun hj => hwait ((waiting_pop h.nodup hw he).mpr hj)⟩
  · obtain ⟨hlog', hk, hq⟩ := h.toQueue e' b he'
    exact ⟨hlog', hk, fun hx => hq (hmem.mp hx).2⟩
  · rcases update_eq_some hu with ⟨-, hx⟩ | ⟨-, hu⟩
    · cases hx
      refine ⟨hlog, hkept, fun hx => (hmem.mp hx).1 rfl, fun e' b he' heq => ?_⟩
      exact (h.toQueue e' b he').2.2 (heq ▸ he)
    · obtain ⟨he', hs, hq, hsep⟩ := h.mat u e' s hu
      exact ⟨he', hs, fun hx => hq (hmem.mp hx).2, hsep⟩
  · rcases update_eq_some hu with ⟨huw, hx⟩ | ⟨-, hu₁⟩
    · cases hx
      rcases update_eq_some hu' with ⟨huw', -⟩ | ⟨-, hu₁'⟩
      · exact huw.trans huw'.symm
      · exact absurd heq.symm (hother hu₁')
    · rcases update_eq_some hu' with ⟨-, hx⟩ | ⟨-, hu₁'⟩
      · cases hx
        exact absurd heq (hother hu₁)
      · exact h.unique u e' s u' e'' s' hu₁ hu₁' heq

/-- A worker that materializes nothing any more. -/
theorem of_update_none {u : W} {y : Entry S × MatStep S}
    (hu : Function.update mats w none u = some y) : u ≠ w ∧ mats u = some y := by
  rcases update_eq_some hu with ⟨-, hx⟩ | hu
  · cases hx
  · exact hu

theorem waiting_store (h : ResultsOk env pic log stage mats) (hw : mats w = some (e, step)) :
    Waiting (pic.withResult e.idx final) stage (Function.update mats w none) i ↔
      i ≠ e.idx ∧ Waiting pic stage mats i := by
  obtain ⟨-, -, hnotin, hsep⟩ := h.mat w e step hw
  constructor
  · rintro (hi | ⟨e', b, he', rfl⟩ | ⟨u, e', s, hu, rfl⟩)
    · refine ⟨?_, .inl hi⟩
      rintro rfl
      exact hnotin hi
    · exact ⟨hsep e' b he', .inr (.inl ⟨e', b, he', rfl⟩)⟩
    · obtain ⟨hne, hu⟩ := of_update_none hu
      exact ⟨fun heq => hne (h.unique _ _ _ _ _ _ hu hw heq), .inr (.inr ⟨u, e', s, hu, rfl⟩)⟩
  · rintro ⟨hne, hi | hi | ⟨u, e', s, hu, rfl⟩⟩
    · exact .inl hi
    · exact .inr (.inl hi)
    · have huw : u ≠ w := by
        rintro rfl
        cases hw.symm.trans hu
        exact hne rfl
      exact .inr (.inr ⟨u, e', s, (Function.update_of_ne huw ..).trans hu, rfl⟩)

/-- A worker stores the result of a transaction. -/
theorem ResultsOk.store (h : ResultsOk env pic log stage mats) (hrolled : Rolled env log)
    (hw : mats w = some (e, .outputTaken final)) :
    ResultsOk env (pic.withResult e.idx final) log stage (Function.update mats w none) := by
  obtain ⟨hlog, hyields, -, -⟩ := h.mat w e _ hw
  have hget : ∀ {j}, j ≠ e.idx → (pic.results.set e.idx final)[j]? = pic.results[j]? :=
    fun hj => List.getElem?_set_ne hj.symm
  refine ⟨(List.length_set ..).trans h.length, h.nodup, h.queued, h.toQueue,
    fun u e' s hu => h.mat u e' s (of_update_none hu).2,
    fun u e' s u' e'' s' hu hu' =>
      h.unique u e' s u' e'' s' (of_update_none hu).2 (of_update_none hu').2,
    fun j hj hwait => ?_, fun j e' he' hwait => ?_⟩
  · have hne : j ≠ e.idx := by
      rcases hwait with hwait | hwait
      · exact ((lt_of_log hlog).trans_le hwait).ne'
      · exact ((waiting_store h hw).mp hwait).1
    exact (hget hne).trans
      (h.blank j hj (hwait.imp_right fun hwait => ((waiting_store h hw).mp hwait).2))
  · by_cases hne : j = e.idx
    · subst hne
      cases hlog.symm.trans he'
      refine ⟨final, List.getElem?_set_self ?_, hyields⟩
      rw [h.length]
      exact hrolled.lt_numTxns hlog
    · obtain ⟨final', hfinal', hy⟩ := h.done j e' he' fun hj =>
        hwait ((waiting_store h hw).mpr ⟨hne, hj⟩)
      exact ⟨final', (hget hne).trans hfinal', hy⟩

end Mats

/-! ### The invariant -/

/-- The parts of the invariant, put together for a step that materializes. -/
theorem GoodWith.setMat {x : Option (Entry S × MatStep S)} (h : GoodWith hC pic log gs stage)
    (htasks : TasksOk pic'.sched fun v => (gs v).task)
    (hcommit : CommitOk hC pic' log (fun v => (gs v).stage) stage)
    (hresults : ResultsOk env pic' log stage (Function.update (fun v => (gs v).mat) w x))
    (hhalted : pic'.sched.halted = pic.sched.halted)
    (hqueue : pic.sched.queue = [] → pic'.sched.queue = []) :
    GoodWith hC pic' log (Function.update gs w { gs w with mat := x }) stage :=
  good_update (TasksOk.same htasks) (CommitOk.same hcommit) hresults
    (h.seenHalt.same hhalted.trans) (h.ended.same hqueue)

/-- **The materialization of a transaction goes on.** -/
theorem GoodWith.materialize (h : GoodWith hC pic log gs stage)
    (hmat : (gs w).mat = some (e, step)) (hm : Materializes pic pic' e.idx)
    (hstep : MatStepOk pic' e step') :
    GoodWith hC pic' log (Function.update gs w { gs w with mat := some (e, step') }) stage := by
  obtain ⟨hlog, -, -, hsep⟩ := h.results.mat w e step hmat
  have hlt := lt_of_log hlog
  have hcommitted : ∀ {j}, pic.sched.committed ≤ j → j ≠ e.idx := fun hj =>
    (hlt.trans_le (h.commit.stageOk.length_le.trans hj)).ne'
  refine h.setMat (hm.sched ▸ h.tasks) (h.commit.keep (by rw [hm.sched]) (by rw [hm.sched])
    (by rw [hm.sched]) hm.limit (fun j _ hj => ?_) fun j r hj hr => ?_)
    (h.results.setMat hmat hm hstep) (by rw [hm.sched]) (by rw [hm.sched]; exact id)
  · refine (hm.record j ?_).1
    rcases hj with hj | ⟨e', b, he', rfl⟩
    · exact (hlt.trans_le hj).ne'
    · exact hsep e' b he'
  · exact h.commit.ran j r hj (((hm.record j (hcommitted hj)).1).symm.trans hr)

/-- **A transaction is taken from the queue.** -/
theorem GoodWith.pop (h : GoodWith hC pic log gs stage) (hmat : (gs w).mat = none)
    (hi : i ∈ pic.sched.queue) :
    ∃ e, e.idx = i ∧ GoodWith hC (pic.withSched { pic.sched with queue := pic.sched.queue.erase i })
      log (Function.update gs w { gs w with mat := some (e, .popped) }) stage := by
  obtain ⟨e, rfl, hlog, hkept⟩ := h.results.queued i hi
  refine ⟨e, rfl, h.setMat (h.tasks.keep rfl rfl fun _ => rfl)
    (h.commit.keep rfl rfl rfl rfl (fun _ _ _ => rfl) h.commit.ran)
    (h.results.pop hmat hi hlog hkept) rfl fun hq => ?_⟩
  exact List.eq_nil_of_subset_nil (hq ▸ List.erase_subset)

/-- **A transaction has its result.** -/
theorem GoodWith.store {final : Final S} (h : GoodWith hC pic log gs stage)
    (hmat : (gs w).mat = some (e, .outputTaken final)) :
    GoodWith hC (pic.withResult e.idx final) log
      (Function.update gs w { gs w with mat := none }) stage :=
  h.setMat h.tasks (h.commit.keep rfl rfl rfl rfl (fun _ _ _ => rfl) h.commit.ran)
    (h.results.store h.commit.rolled hmat) rfl id

/-- **A worker comes to its end.** -/
theorem GoodWith.finish (h : GoodWith hC pic log gs stage) (hqueue : pic.sched.queue = []) :
    GoodWith hC pic log (Function.update gs w { gs w with ended := true }) stage :=
  good_update (TasksOk.same h.tasks) (CommitOk.same h.commit) (ResultsOk.same h.results)
    (h.seenHalt.same id) fun _ => hqueue

end BlockStm

end Aptos

end RelayContracts
