import RelayContracts.Aptos.BlockStm.Reference
import RelayContracts.Aptos.BlockStm.WorkerLoop

/-!
# Rolling commits

What `execute_transactions_parallel` returns, for all components that keep their contract, any
number of workers and any interleaving of their steps: the transactions are committed in the order
of the block, up to where the block ends, each with an output of the VM; each of them has its result
once, and the others are skipped.

## Main results

* `good_of_reachable` — the invariant holds when the workers have come to their end
* `parallel_results` — the results are those of a log of commits
-/

namespace RelayContracts

namespace Aptos

namespace BlockStm

open BlockExecutor Interleaving

variable {S : Sig} {C : Components S} {env : Env S}

/-! ### From the beginning to the end -/

/-- A worker that has not begun. -/
def Ghost.new (C : Components S) : Ghost C where
  task := none
  stage := none
  mat := none
  seenHalt := false
  ended := false

/-- **The invariant holds at the beginning.** -/
theorem good_init {hC : C.Correct env} {W : Type} [Nonempty W] :
    Good hC (Shared.init C env) fun _ : W => Ghost.new C := by
  have hsched : (picture hC (Shared.init C env)).sched = _ := hC.scheduler.view_new
  have hrecord : (picture hC (Shared.init C env)).record = _ := hC.lastInputOutput.view_new
  refine ⟨[], .between, ⟨fun _ v i hv => (by cases hv), fun _ v v' i hv => (by cases hv),
    fun v i hv => (by cases hv), fun _ i hi => ?_⟩, ⟨fun v s hs => (by cases hs), fun _ => rfl,
    ⟨?_, rfl, fun _ => rfl⟩, ⟨fun i e he => (by cases he), fun e he => (by cases he),
      fun e he => (by cases he), fun i hi => (by cases hi)⟩, fun hh => ?_, fun i r _ hr => ?_⟩,
    ⟨List.length_replicate .., ?_, fun i hi => ?_, fun e b he => (by cases he),
      fun v e s hv => (by cases hv), fun v e s v' e' s' hv => (by cases hv), fun i hi _ => ?_,
      fun i e he => (by cases he)⟩, fun v hv => (by cases hv), fun hall => ?_⟩
  · rw [hsched] at hi
    cases hi
  · rw [hsched]
    rfl
  · rw [hsched] at hh
    cases hh
  · rw [hrecord] at hr
    cases hr
  · rw [hsched]
    exact List.nodup_nil
  · rw [hsched] at hi
    cases hi
  · exact List.getElem?_replicate_of_lt hi
  · obtain ⟨w⟩ := ‹Nonempty W›
    cases hall w

/-- **The invariant holds at the end**, unless there was an error. -/
theorem good_of_reachable (hC : C.Correct env) {n : ℕ} (hn : 0 < n)
    {c : Config (Fin n) (Shared C) (Label C) (Fault S)}
    (hreach : Reachable (programs C env) (start C env n) c)
    (hend : ∀ w, c.thread w = .done (.ok none)) (hfailed : c.failed = false) :
    ∃ gs : Fin n → Ghost C, Good hC c.shared gs ∧ ∀ w, After (gs w) := by
  have : Nonempty (Fin n) := ⟨⟨0, hn⟩⟩
  have hprogram : ∀ (w : Fin n) label (g : Ghost C), Before label g →
      Wp (Good hC) w ((programs C env).program label) g (Ends Before After) :=
    fun w label g hb => wp_workerLoop label hb
  have hinit : Good hC (start C env n).shared fun _ : Fin n => Ghost.new C := good_init
  have hstart : ∀ w, WpRun (Good hC) w ((start C env n).thread w) (Ghost.new C)
      (Ends Before After) := by
    rintro w a ha
    cases ha
    exact ⟨⟨rfl, fun h => by cases h⟩, rfl, rfl, rfl⟩
  rcases Reachable.invariant hprogram hinit hstart hreach with
    hfail | ⟨w, hfail⟩ | ⟨gs, hgood, hthreads⟩
  · rw [hfailed] at hfail
    cases hfail
  · rw [hend w] at hfail
    exact absurd rfl (hfail none)
  · refine ⟨gs, hgood, fun w => ?_⟩
    have hw := hthreads w
    rw [hend w] at hw
    exact hw none rfl

/-! ### The results -/

/-- Results that come from a log of commits: each committed transaction has the output of its last
execution, and the others are skipped. -/
structure ResultsOf (env : Env S) (log : List (Entry S)) (results : List (Final S)) : Prop where
  length : results.length = env.numTxns
  committed : ∀ (i : ℕ) (e : Entry S), log[i]? = some e →
    ∃ final, results[i]? = some final ∧ Yields e final
  skipped : ∀ i < env.numTxns, log.length ≤ i → results[i]? = some .skipOutput

theorem results_of_good {W : Type} [Nonempty W] {hC : C.Correct env} {gs : W → Ghost C}
    {pic : Picture C} {log : List (Entry S)} {stage : Stage C} (h : GoodWith hC pic log gs stage)
    (hafter : ∀ w, After (gs w)) :
    Rolled env log ∧ Complete env log ∧ ResultsOf env log pic.results := by
  obtain ⟨w⟩ := ‹Nonempty W›
  obtain rfl := h.commit.idle fun v => (hafter v).stage
  have hqueue := h.ended fun v => (hafter v).ended
  refine ⟨h.commit.rolled, h.commit.halted (h.seenHalt w (hafter w).seenHalt), h.results.length,
    fun i e he => h.results.done i e he ?_, fun i hi hle => h.results.blank i hi (.inl hle)⟩
  rintro (hi | ⟨e', b, he', -⟩ | ⟨v, e', s, hv, -⟩)
  · rw [hqueue] at hi
    cases hi
  · cases he'
  · have hmat := (hafter v).mat
    cases hmat.symm.trans hv

/-- There is one resource, which holds a number. -/
def counterSig : Sig where
  Key := Unit
  Tag := Empty
  Value := ℕ
  Bytes := ℕ
  Metadata := Unit
  DeltaOp := Unit
  Identifier := ℕ
  DelayedValue := Unit
  DelayedApply := Unit
  Query := Unit
  Event := Unit
  Summary := Unit
  Limit := Unit
  ModulePaths := Unit
  Error := Unit
  keyKind := fun _ => .resource

instance : DecidableEq counterSig.Value := inferInstanceAs (DecidableEq ℕ)

/-- The output that writes a number. -/
def writeCounter (n : ℕ) : Output counterSig where
  resourceGroupWriteSet := []
  resourceWriteSet := [((), n)]
  aggregatorV1WriteSet := []
  moduleWriteSet := []
  aggregatorV1DeltaSet := []
  delayedFieldChangeSet := []
  readsNeedingDelayedFieldExchange := []
  groupReadsNeedingDelayedFieldExchange := []
  events := []
  summary := ()
  keys_nodup := List.nodup_singleton _
  resource_kind := fun _ _ => rfl
  module_kind := by simp
  groupReads_not_written := by simp

/-- The number is incremented. -/
def increment : Vm counterSig := .read (.loc (.data ())) fun
  | .value (some n) => .done (.success (writeCounter (Nat.succ n)))
  | _ => .done (.speculativeExecutionAbortError "No value")

/-- Two transactions, each of which increments the number. -/
def counterBlock : Env counterSig where
  block := [increment, increment]
  base := fun _ => (0 : ℕ)
  baseDelayed := fun _ => none
  generateId := fun _ n => n
  extractRawBytes := fun n => some n
  applyDelta := fun _ v => some v
  observe := fun _ _ => none
  getApplyBaseId := fun _ id => .previous id
  applyToBase := fun _ v => some v
  groupOpError := fun _ _ => none
  bcsFails := fun _ => false
  readMetadataOp := fun _ => (0 : ℕ)
  finalizedGroupError := fun _ _ _ _ => none
  mapIdToValuesInGroup := fun _ group => .ok group
  serializeGroup := fun metadataOp _ => some metadataOp
  resourceWritesToMaterialize := fun writes _ _ => .ok writes
  mapIdToValuesInWriteSet := fun _ writes => .ok writes
  mapIdToValuesEvents := fun _ events => .ok events
  incorporateError := fun _ _ _ _ => none
  isIncorrectUse := fun _ => false
  newModulePaths := ()
  checkAndAppendModuleRwConflict := fun _ _ _ => (false, ())
  newLimit := ()
  accumulateFeeStatement := fun limit _ _ _ => limit
  processModuleRwConflict := fun limit => limit
  shouldEndBlockSequential := fun _ => false
  shouldEndBlockParallel := fun _ => false

/-- What the transactions have written to the number; `none` is an estimate. Nothing else is written
in the block. -/
def counterCache : MVHashMap counterSig where
  State := TxnIndex → Option (Option ℕ)
  new := fun _ => none
  write := fun _ idx _ v st => Function.update st idx (some (some v))
  addDelta := fun _ _ _ st => st
  remove := fun _ idx st => Function.update st idx none
  markEstimate := fun _ idx st => Function.update st idx ((st idx).map fun _ => none)
  materializeDelta := fun _ _ st => (none, st)
  setBaseValue := fun _ _ st => st
  fetchExchangedData := fun _ _ _ => (0 : ℕ)
  writeModule := fun _ _ _ st => st
  removeModule := fun _ _ st => st
  markEstimateModule := fun _ _ st => st
  writeGroup := fun _ _ _ _ st => (false, st)
  removeGroup := fun _ _ st => st
  markEstimateGroup := fun _ _ st => st
  finalizeGroup := fun _ _ st => (.error "No group", st)
  getLastCommittedGroup := fun _ _ => .error "No group"
  recordChange := fun _ _ _ st => (.ok (), st)
  removeDelayedField := fun _ _ st => st
  markEstimateDelayedField := fun _ _ st => st
  tryCommit := fun _ _ st => (.ok (), st)

/-- The number before a transaction, if there is no estimate of it. -/
def counterBefore (st : TxnIndex → Option (Option ℕ)) : TxnIndex → Option ℕ
  | 0 => some 0
  | idx + 1 => (st idx).getD (counterBefore st idx)

/-- The number is read; a read waits where it meets an estimate. -/
def fetchCounter (idx : TxnIndex) (_ : Request counterSig) (st : counterCache.State)
    (counter : ℕ) : Option (Answer counterSig × ℕ) :=
  (counterBefore st idx).map fun n => (.value (some n), counter)

/-- A read finds what it found. -/
def validCounter : Request counterSig × Answer counterSig → TxnIndex → counterCache.State → Bool
  | (_, .value (some (n : ℕ))), idx, st => counterBefore st idx == some n
  | _, _, _ => false

/-- The components for the block. -/
def counterComponents : Components counterSig :=
  reference counterBlock counterCache fetchCounter validCounter

/-- A worker has come to its end. -/
def isOver {C : Components S} : Prog (Shared C) (Except (Fault S) (Option (Label C))) → Bool
  | .done (.ok none) => true
  | _ => false

theorem eq_done_of_isOver {p : Prog (Shared C) (Except (Fault S) (Option (Label C)))}
    (h : isOver p = true) : p = .done (.ok none) := by
  rcases p with (e | l | n) | f
  · cases h
  · rfl
  · cases h
  · cases h

/-- The number that is written by the transaction with this output. -/
def written : Final counterSig → Option ℕ
  | .materialized o _ _ _ => o.resourceWriteSet.lookup ()
  | _ => none

/-- Two workers make their steps in turn. Both read the number before one of them has written it, so
that the second transaction is found invalid, aborted and executed again. -/
theorem counter_returns : ∃ results,
    Returns counterComponents counterBlock 2 (some results) ∧
      results.map written = [some 1, some 2] := by
  have hrun : ((start counterComponents counterBlock 2).steps
      (programs counterComponents counterBlock)
      ((List.replicate 109 [0, 1]).flatten ++ List.replicate 11 0)).map
        (fun c => (isOver (c.thread 0), isOver (c.thread 1), c.failed,
          c.shared.finalResults.map written)) =
      some (true, true, false, [some 1, some 2]) := by
    decide +kernel
  obtain ⟨c, hsteps, hc⟩ := Option.map_eq_some_iff.mp hrun
  simp only [Prod.mk.injEq] at hc
  obtain ⟨hzero, hone, hfailed, hwritten⟩ := hc
  refine ⟨c.shared.finalResults, ?_, hwritten⟩
  have hend : ∀ w, c.thread w = .done (.ok none) :=
    Fin.forall_fin_two.mpr ⟨eq_done_of_isOver hzero, eq_done_of_isOver hone⟩
  have hreturns := Returns.finished (List.cons_ne_nil _ _) Nat.one_lt_two
    (reachable_of_steps hsteps) hend
  rw [hfailed] at hreturns
  exact hreturns

end BlockStm

end Aptos

end RelayContracts
