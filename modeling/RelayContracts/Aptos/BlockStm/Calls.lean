import RelayContracts.Aptos.BlockStm.Results

/-!
# The calls of the workers

A call of a component is one step. The contract of the component says what the step does to its
view; the lemmas of this file turn that into an obligation about the picture, so that the proofs
about the workers are about pictures and ghosts only. Most of what a worker does is not seen in the
picture at all (`Keeps`): the reads and writes in the cache, what is asked of the record, and all of
a validation.

## Main definitions

* `Next` — the step of a worker leads to a good state, and to a ghost for the rest of its program
* `Keeps` — a program leaves the ghost of its worker as it is
-/

namespace RelayContracts

namespace Aptos

namespace BlockStm

open BlockExecutor Interleaving

variable {S : Sig} {C : Components S} {env : Env S} {hC : C.Correct env} {pic : Picture C}
  {W : Type} [DecidableEq W] {w : W} {gs : W → Ghost C} {g : Ghost C} {α β : Type}
  {log : List (Entry S)} {stage : Stage C} {Q : α → Ghost C → Prop} {R : β → Ghost C → Prop}

/-- After a step of a worker the invariant holds, with a ghost of which this is true. -/
def Next (hC : C.Correct env) (w : W) (gs : W → Ghost C) (pic : Picture C)
    (P : Ghost C → Prop) : Prop :=
  ∃ g log stage, GoodWith hC pic log (Function.update gs w g) stage ∧ P g

theorem GoodWith.next_of {P : Ghost C → Prop} {g : Ghost C}
    (h : GoodWith hC pic log (Function.update gs w g) stage) (hP : P g) : Next hC w gs pic P :=
  ⟨g, log, stage, h, hP⟩

/-- The worker knows no more than before. -/
theorem GoodWith.stay {P : Ghost C → Prop} (h : GoodWith hC pic log gs stage) (hg : gs w = g)
    (hP : P g) : Next hC w gs pic P := by
  refine ⟨g, log, stage, ?_, hP⟩
  rw [← hg, Function.update_eq_self]
  exact h

theorem wp_step_bind {f : Shared C → α × Shared C} {q : α → Worker C β}
    (h : ∀ st gs log stage, gs w = g → GoodWith hC (picture hC st) log gs stage →
      ∀ a st', f st = (a, st') → Fails (q a).run ∨
        Next hC w gs (picture hC st') fun g => Wp (Good hC) w (q a) g R) :
    Wp (Good hC) w (step f >>= q) g R := by
  refine Wp.call_bind fun st gs hg hgood a st' hf => ?_
  obtain ⟨log, stage, hgood⟩ := hgood
  rcases h st gs log stage hg hgood a st' (Option.some.inj hf) with
    hfail | ⟨g', log', stage', hgood', hP⟩
  · exact .inl hfail
  · exact .inr ⟨g', ⟨log', stage', hgood'⟩, hP⟩

theorem wp_step {f : Shared C → α × Shared C}
    (h : ∀ st gs log stage, gs w = g → GoodWith hC (picture hC st) log gs stage →
      ∀ a st', f st = (a, st') → Next hC w gs (picture hC st') (Q a)) :
    Wp (Good hC) w (step f) g Q := by
  refine Wp.call fun st gs hg hgood a st' hf => ?_
  obtain ⟨log, stage, hgood⟩ := hgood
  obtain ⟨g', log', stage', hgood', hQ⟩ := h st gs log stage hg hgood a st' (Option.some.inj hf)
  exact ⟨g', ⟨log', stage', hgood'⟩, hQ⟩

/-! ### The scheduler -/

theorem wp_onScheduler_bind {f : C.scheduler.State → α × C.scheduler.State} {q : α → Worker C β}
    (h : ∀ pic gs log stage st, gs w = g → pic.sched = hC.scheduler.view st →
      GoodWith hC pic log gs stage → ∀ a st', f st = (a, st') → Fails (q a).run ∨
        Next hC w gs (pic.withSched (hC.scheduler.view st')) fun g => Wp (Good hC) w (q a) g R) :
    Wp (Good hC) w (onScheduler f >>= q) g R := by
  refine wp_step_bind fun st gs log stage hg hgood a st' hf => ?_
  cases hf
  exact h _ gs log stage st.scheduler hg rfl hgood _ _ rfl

theorem wp_onScheduler {f : C.scheduler.State → α × C.scheduler.State}
    (h : ∀ pic gs log stage st, gs w = g → pic.sched = hC.scheduler.view st →
      GoodWith hC pic log gs stage → ∀ a st', f st = (a, st') →
        Next hC w gs (pic.withSched (hC.scheduler.view st')) (Q a)) :
    Wp (Good hC) w (onScheduler f) g Q := by
  refine wp_step fun st gs log stage hg hgood a st' hf => ?_
  cases hf
  exact h _ gs log stage st.scheduler hg rfl hgood _ _ rfl

theorem wp_onScheduler_noValue {f : C.scheduler.State → C.scheduler.State}
    {Q : Unit → Ghost C → Prop}
    (h : ∀ pic gs log stage st, gs w = g → pic.sched = hC.scheduler.view st →
      GoodWith hC pic log gs stage →
        Next hC w gs (pic.withSched (hC.scheduler.view (f st))) (Q ())) :
    Wp (Good hC) w (onScheduler (noValue f)) g Q :=
  wp_onScheduler fun pic gs log stage st hg hpic hgood _ _ hf => by
    cases hf
    exact h pic gs log stage st hg hpic hgood

/-! ### The record -/

theorem wp_onRecord_bind {f : C.lastInputOutput.State → α × C.lastInputOutput.State}
    {q : α → Worker C β}
    (h : ∀ pic gs log stage st, gs w = g → pic.record = hC.lastInputOutput.view st →
      GoodWith hC pic log gs stage → ∀ a st', f st = (a, st') → Fails (q a).run ∨
        Next hC w gs (pic.withRecord (hC.lastInputOutput.view st')) fun g =>
          Wp (Good hC) w (q a) g R) :
    Wp (Good hC) w (onRecord f >>= q) g R := by
  refine wp_step_bind fun st gs log stage hg hgood a st' hf => ?_
  cases hf
  exact h _ gs log stage st.lastInputOutput hg rfl hgood _ _ rfl

theorem wp_onRecord_noValue {f : C.lastInputOutput.State → C.lastInputOutput.State}
    {Q : Unit → Ghost C → Prop}
    (h : ∀ pic gs log stage st, gs w = g → pic.record = hC.lastInputOutput.view st →
      GoodWith hC pic log gs stage →
        Next hC w gs (pic.withRecord (hC.lastInputOutput.view (f st))) (Q ())) :
    Wp (Good hC) w (onRecord (noValue f)) g Q := by
  refine wp_step fun st gs log stage hg hgood a st' hf => ?_
  cases hf
  exact h _ gs log stage st.lastInputOutput hg rfl hgood

theorem wp_onRecord_reading_bind {f : C.lastInputOutput.State → α} {q : α → Worker C β}
    (h : ∀ pic gs log stage st, gs w = g → pic.record = hC.lastInputOutput.view st →
      GoodWith hC pic log gs stage → Fails (q (f st)).run ∨
        Next hC w gs pic fun g => Wp (Good hC) w (q (f st)) g R) :
    Wp (Good hC) w (onRecord (reading f) >>= q) g R :=
  wp_onRecord_bind fun pic gs log stage st hg hpic hgood _ _ hf => by
    cases hf
    rw [← hpic]
    exact h pic gs log stage st hg hpic hgood

/-! ### Errors -/

theorem fails_throw {e : Fault S} : Fails (throw e : Worker C α).run := Fails.throw

theorem fails_orError {msg : String} : Fails (orError (.error msg) : Worker C α).run := Fails.throw

theorem fails_expect : Fails (expect none : Worker C α).run := Fails.throw

/-- What `expect` is given is there. -/
theorem wp_expect_bind {x : Option α} {q : α → Worker C β}
    (h : ∀ a, x = some a → Wp (Good hC) w (q a) g R) :
    Wp (Good hC) w (expect x >>= q) g R := by
  cases x with
  | none => exact (Fails.bind fails_expect).wpRun
  | some a => exact h a rfl

/-- There is no error. -/
theorem wp_orError_bind {x : Except String α} {q : α → Worker C β}
    (h : ∀ a, x = .ok a → Wp (Good hC) w (q a) g R) :
    Wp (Good hC) w (orError x >>= q) g R := by
  cases x with
  | error msg => exact (Fails.bind fails_orError).wpRun
  | ok a => exact h a rfl

theorem wp_onlyIf {b : Bool} {p : Worker C Unit} {Q : Unit → Ghost C → Prop}
    (htrue : b = true → Wp (Good hC) w p g Q) (hfalse : b = false → Q () g) :
    Wp (Good hC) w (onlyIf b p) g Q := by
  cases b with
  | true => exact htrue rfl
  | false => exact Wp.pure (hfalse rfl)

/-! ### What is not seen in the picture -/

variable (hC w g) in
/-- A program leaves the ghost of its worker as it is. -/
def Keeps (p : Worker C α) : Prop := Wp (Good hC) w p g fun _ g' => g' = g

theorem Keeps.pure (a : α) : Keeps hC w g (pure a : Worker C α) := Wp.pure rfl

theorem Keeps.throw (e : Fault S) : Keeps hC w g (throw e : Worker C α) := Wp.throw

/-- What follows a program that keeps the ghost. -/
theorem Keeps.then {p : Worker C α} {q : α → Worker C β} (hp : Keeps hC w g p)
    (hq : ∀ a, Wp (Good hC) w (q a) g R) : Wp (Good hC) w (p >>= q) g R := by
  refine Wp.bind (hp.mono fun a g' hg' => ?_)
  rw [hg']
  exact hq a

theorem Keeps.bind {p : Worker C α} {q : α → Worker C β} (hp : Keeps hC w g p)
    (hq : ∀ a, Keeps hC w g (q a)) : Keeps hC w g (p >>= q) :=
  hp.then hq

theorem Keeps.foldlM {γ : Type} {l : List γ} {f : β → γ → Worker C β} {b : β}
    (h : ∀ b c, Keeps hC w g (f b c)) : Keeps hC w g (l.foldlM f b) :=
  Wp.foldlM (fun _ _ g' => g' = g) rfl fun c _ b _ hg => hg ▸ h b c

theorem Keeps.forM {γ : Type} {l : List γ} {f : γ → Worker C Unit}
    (h : ∀ c, Keeps hC w g (f c)) : Keeps hC w g (l.forM f) :=
  Wp.forM (fun _ g' => g' = g) rfl fun c _ _ hg => hg ▸ h c

theorem keeps_step {f : Shared C → α × Shared C}
    (h : ∀ st, picture hC (f st).2 = picture hC st) : Keeps hC w g (step f) := by
  refine wp_step fun st gs log stage hg hgood a st' hf => ?_
  have hpic := h st
  rw [hf] at hpic
  rw [hpic]
  exact hgood.stay hg rfl

theorem keeps_onCache (f : C.versionedCache.State → α × C.versionedCache.State) :
    Keeps hC w g (onCache f) :=
  keeps_step fun _ => rfl

theorem keeps_reading (f : C.lastInputOutput.State → α) : Keeps hC w g (onRecord (reading f)) :=
  keeps_step fun _ => rfl

theorem keeps_onRecord {f : C.lastInputOutput.State → α × C.lastInputOutput.State}
    (h : ∀ st, hC.lastInputOutput.view (f st).2 = hC.lastInputOutput.view st) :
    Keeps hC w g (onRecord f) := by
  refine keeps_step fun st => ?_
  rw [picture, h]
  rfl

theorem keeps_onScheduler {f : C.scheduler.State → α × C.scheduler.State}
    (h : ∀ st, hC.scheduler.view (f st).2 = hC.scheduler.view st) :
    Keeps hC w g (onScheduler f) := by
  refine keeps_step fun st => ?_
  rw [picture, h]
  rfl

theorem keeps_onlyIf {b : Bool} {p : Worker C Unit} (h : Keeps hC w g p) :
    Keeps hC w g (onlyIf b p) :=
  wp_onlyIf (fun _ => h) fun _ => rfl

theorem keeps_expect (x : Option α) : Keeps hC w g (expect x) := by
  cases x with
  | none => exact Keeps.throw _
  | some a => exact Keeps.pure a

theorem keeps_orError (x : Except String α) : Keeps hC w g (orError x) := by
  cases x with
  | error msg => exact Keeps.throw _
  | ok a => exact Keeps.pure a

/-! ### Validations and aborts -/

variable {i : TxnIndex}

theorem keeps_validateReads (reads : List (Request S × Answer S)) :
    Keeps hC w g (validateReads C i reads) := by
  induction reads with
  | nil => exact Keeps.pure true
  | cons r reads ih =>
    refine (keeps_onCache _).bind fun b => ?_
    cases b with
    | true => exact ih
    | false => exact Keeps.pure false

/-- **A validation** is not seen in the picture. -/
theorem keeps_validate : Keeps hC w g (validate C i) := by
  refine (keeps_reading _).bind fun x => (keeps_expect x).bind fun rs => ?_
  split
  · exact Keeps.throw _
  · refine (keeps_validateReads _).bind fun b => ?_
    cases b with
    | true => exact keeps_validateReads _
    | false => exact Keeps.pure false

theorem keeps_markEstimate (x : S.Key × KeyKind) : Keeps hC w g (markEstimate C i x) := by
  obtain ⟨k, kind⟩ := x
  cases kind with
  | resource => exact keeps_onCache _
  | modulePath => exact keeps_onCache _
  | group => exact (keeps_onCache _).bind fun _ => keeps_onCache _

theorem keeps_updateTransactionOnAbort : Keeps hC w g (updateTransactionOnAbort C i) :=
  (keeps_reading _).bind fun _ => (Keeps.forM keeps_markEstimate).bind fun _ =>
    (keeps_reading _).bind fun _ => Keeps.forM fun _ => keeps_onCache _

theorem keeps_tryCommitDelayedFields (ids : Option (List S.Identifier)) :
    Keeps hC w g (tryCommitDelayedFields C i ids) := by
  cases ids with
  | none => exact Keeps.pure true
  | some ids =>
    refine (keeps_onCache _).bind fun x => ?_
    rcases x with (err | msg) | u
    · exact Keeps.pure false
    · exact Keeps.throw _
    · exact Keeps.pure true

/-- What `validate_commit_ready` does with the reads. -/
theorem keeps_validateReadSet (rs : C.ReadSet) : Keeps hC w g (do
    if ← orError (← onCache (reading (C.capturedReads.validateDelayedFieldReads rs i))) then
      tryCommitDelayedFields C i (← onRecord (reading (C.lastInputOutput.delayedFieldKeys i)))
    else pure false) := by
  refine (keeps_onCache _).bind fun x => (keeps_orError x).bind fun b => ?_
  cases b with
  | true => exact (keeps_reading _).bind fun ids => keeps_tryCommitDelayedFields ids
  | false => exact Keeps.pure false

theorem keeps_validateCommitReady : Keeps hC w g (validateCommitReady C i) :=
  (keeps_reading _).bind fun x => (keeps_expect x).bind fun rs => keeps_validateReadSet rs

/-! ### Groups, and what is materialized -/

theorem keeps_finalizeOne (done : List (FinalizedGroup S)) (x : S.Key × S.Value × Bool) :
    Keeps hC w g (finalizeOne C env i done x) := by
  rw [finalizeOne]
  split
  · exact (keeps_onCache _).bind fun group => (keeps_orError group).bind fun _ =>
      (keeps_orError _).bind fun _ => Keeps.pure _
  · exact (keeps_onCache _).bind fun group => (keeps_orError group).bind fun _ =>
      (keeps_orError _).bind fun _ => Keeps.pure _

theorem keeps_finalizedGroups : Keeps hC w g (finalizedGroups C env i) :=
  (keeps_reading _).bind fun _ => Keeps.foldlM keeps_finalizeOne

theorem keeps_materializeDelta (k : S.Key) : Keeps hC w g (materializeDelta C env i k) := by
  refine (keeps_onCache _).bind fun x => (keeps_expect x).bind fun v => ?_
  cases v with
  | ok v => exact Keeps.pure v
  | error op => exact (keeps_onCache _).bind fun _ => keeps_expect _

theorem keeps_materializeAggregatorV1DeltaWrites :
    Keeps hC w g (materializeAggregatorV1DeltaWrites C env i) :=
  (keeps_reading _).bind fun _ => Keeps.foldlM fun _ k =>
    (keeps_materializeDelta k).bind fun _ => Keeps.pure _

theorem keeps_delayedFields : Keeps hC w g (delayedFields C i) := keeps_step fun _ => rfl

theorem keeps_serializedGroups : Keeps hC w g (serializedGroups C env i) := by
  refine (keeps_onRecord (hC.lastInputOutput.takeFinalizedGroup i)).bind fun groups =>
    keeps_delayedFields.bind fun fields => (keeps_orError _).bind fun groups => ?_
  split
  · exact Keeps.pure _
  · exact Keeps.throw _

theorem keeps_materializedResourceWriteSet :
    Keeps hC w g (materializedResourceWriteSet C env i) :=
  (keeps_onRecord (hC.lastInputOutput.takeResourceWriteSet i)).bind fun _ =>
    (keeps_reading _).bind fun _ => (keeps_onCache _).bind fun _ => (keeps_orError _).bind fun _ =>
      keeps_delayedFields.bind fun _ => keeps_orError _

theorem keeps_materializedEvents : Keeps hC w g (materializedEvents C env i) :=
  (keeps_reading _).bind fun _ => keeps_delayedFields.bind fun _ => keeps_orError _

end BlockStm

end Aptos

end RelayContracts
