import RelayContracts.Aptos.BlockExecutor
import RelayContracts.Association
import RelayContracts.FixedWidth

/-!
# Executing a block

`execute_block` tries the parallel executor first, if there is more than one worker. If that fails
the block is executed in sequence; if a resource group could not be serialized, once more, this
time discarding each transaction whose groups cannot be; and what fails then is the error of the
block, or a block of discarded transactions.

The second attempt looks at the groups of an output before it applies it. It differs from the first
one only where the first one fails for a group (`fallback_outputs`): up to the first transaction
whose groups cannot be serialized, both do the same, and this one is discarded.

## Main definitions

* `Config`, `BlockResult`, `executeBlock` — `execute_block`
* `SeqPrefix` — the sequential loop has come to a transaction
* `SerializesAlike` — what the second attempt relies on

## Main results

* `serializeGroups_isSome` — the second attempt knows whether the groups can be serialized
* `fallback_outputs` — what the second attempt returns
-/

namespace RelayContracts

namespace Aptos

namespace BlockExecution

open BlockExecutor Association

variable {S : Sig} {env : Env S} {st : SeqState S} {o : Output S}

/-! ### `execute_block` -/

/-- `BlockExecutorLocalConfig`. -/
structure Config where
  /-- `concurrency_level`. -/
  concurrencyLevel : ℕ
  /-- `allow_fallback`. -/
  allowFallback : Bool
  /-- `discard_failed_blocks`. -/
  discardFailedBlocks : Bool

/-- What `execute_block` returns. -/
inductive BlockResult (S : Sig) where
  /-- The outputs of the transactions. -/
  | outputs (ret : List (Final S))
  /-- An error. -/
  | error (e : BlockExecutionError S)
  /-- A panic. -/
  | panic

/-- The status code with which the transactions of a failed block are discarded. -/
def errorCode : BlockExecutionError S → StatusCode
  | .fatalBlockExecutorError _ => .delayedMaterializationCodeInvariantError
  | .fatalVmError _ => .unknownInvariantViolationError

/-- The end of `execute_block`, for a block that cannot be executed. -/
def failBlock (env : Env S) (config : Config) (e : BlockExecutionError S) : BlockResult S :=
  if config.discardFailedBlocks then
    .outputs (env.block.map fun _ => .discardOutput (errorCode e))
  else .error e

/-- `execute_block` after parallel execution. -/
def executeBlockSequential (env : Env S) (config : Config) : BlockResult S :=
  match executeTransactionsSequential env false with
  | .ok ret => .outputs ret
  | .error .panic => .panic
  | .error (.errorToReturn e) => failBlock env config e
  | .error .resourceGroupSerializationError =>
    if !config.allowFallback then .panic
    else
      match executeTransactionsSequential env true with
      | .ok ret => .outputs ret
      | .error .panic => .panic
      | .error (.errorToReturn e) => failBlock env config e
      | .error .resourceGroupSerializationError =>
        failBlock env config (.fatalBlockExecutorError
          "resource group serialization during bcs fallback should not happen")

/-- `execute_block`, given what the parallel executor returns. -/
def executeBlock (env : Env S) (config : Config) (parallel : Option (List (Final S))) :
    BlockResult S :=
  if 1 < config.concurrencyLevel then
    match parallel with
    | some ret => .outputs ret
    | none => if !config.allowFallback then .panic else executeBlockSequential env config
  else executeBlockSequential env config

/-! ### The sequential loop -/

/-- The first attempt has come to a transaction, in a state. -/
inductive SeqPrefix (env : Env S) : ℕ → SeqState S → Prop
  /-- Before the first. -/
  | init : SeqPrefix env 0 (SeqState.init env)
  /-- One more, and the loop did not end there. -/
  | next {k : ℕ} {st st' : SeqState S} {vm : Vm S} (hrounds : SeqPrefix env k st)
      (hvm : env.block[k]? = some vm)
      (hround : executeSequential env false k vm st = .ok (st', false)) :
      SeqPrefix env (k + 1) st'

/-- A round with an output is what is done with the output, and then a decision. -/
theorem executeSequential_of_output {vm : Vm S} (idx : ℕ)
    (ho : (vm.capture (st.view env) []).2.output? = some o) :
    ∃ stop : SeqState S → Bool, ∀ fallback, executeSequential env fallback idx vm st =
      (commitOutput env fallback idx (vm.capture (st.view env) []).1 o st
        >>= fun p => .ok (p.1, !p.2 && stop p.1)) := by
  cases hs : (vm.capture (st.view env) []).2 with
  | success o' =>
    rw [hs] at ho
    cases ho
    refine ⟨fun st => idx < env.numTxns - 1 && env.shouldEndBlockSequential st.limit,
      fun fallback => ?_⟩
    simp only [executeSequential, hs]
  | skipRest o' =>
    rw [hs] at ho
    cases ho
    refine ⟨fun _ => true, fun fallback => ?_⟩
    simp only [executeSequential, hs, Bool.and_true]
  | abort e => rw [hs] at ho; cases ho
  | speculativeExecutionAbortError msg => rw [hs] at ho; cases ho
  | delayedFieldsCodeInvariantError msg => rw [hs] at ho; cases ho

/-- A round without an output fails. -/
theorem executeSequential_of_no_output {vm : Vm S} (idx : ℕ)
    (ho : (vm.capture (st.view env) []).2.output? = none) :
    ∃ e, ∀ fallback, executeSequential env fallback idx vm st = .error (.errorToReturn e) := by
  cases hs : (vm.capture (st.view env) []).2 with
  | success o => rw [hs] at ho; cases ho
  | skipRest o => rw [hs] at ho; cases ho
  | abort e => exact ⟨_, fun _ => by simp only [executeSequential, hs]; rfl⟩
  | speculativeExecutionAbortError msg =>
    exact ⟨_, fun _ => by simp only [executeSequential, hs]; rfl⟩
  | delayedFieldsCodeInvariantError msg =>
    exact ⟨_, fun _ => by simp only [executeSequential, hs]; rfl⟩

/-! ### The groups after an output is applied -/

section Groups

variable {data data' : Loc S → S.Value} {fields : DelayedFields S}

theorem applyWrites_eq {ws : List (Loc S × S.Value)} (h : applyWrites env ws data = .ok data') :
    data' = ws.foldl (fun data w => Function.update data w.1 w.2) data := by
  induction ws generalizing data with
  | nil =>
    cases h
    rfl
  | cons w ws ih =>
    obtain ⟨_, -, h⟩ := exists_of_bind_eq_ok h
    exact ih h

theorem group_mem_writes {deltaWrites : List (S.Key × S.Value)} {k : S.Key} {t : S.Tag}
    {v : S.Value} : (.group k t, v) ∈ o.writes deltaWrites ↔
      ∃ g ∈ o.resourceGroupWriteSet, g.key = k ∧ (t, v) ∈ g.ops := by
  simp [Output.writes, and_comm]

/-- The groups written have different keys. -/
theorem groupWrite_inj {g g' : GroupWrite S} (hg : g ∈ o.resourceGroupWriteSet)
    (hg' : g' ∈ o.resourceGroupWriteSet) (hkey : g.key = g'.key) : g = g' := by
  have hnodup : (o.resourceGroupWriteSet.map GroupWrite.key).Nodup := by
    have hkeys := o.keys_nodup
    simp only [List.append_assoc] at hkeys
    exact (List.nodup_append.mp hkeys).1
  exact List.inj_on_of_nodup_map hnodup hg hg' hkey

/-- A group that is written has what the second attempt computes before. -/
theorem finalize_of_mem {deltaWrites : List (S.Key × S.Value)} {g : GroupWrite S}
    (hg : g ∈ o.resourceGroupWriteSet)
    (h : applyWrites env (o.writes deltaWrites) data = .ok data') :
    finalize env data' g.key = applyGroupOps env g.ops (finalize env data g.key) := by
  funext t
  have hops : applyGroupOps env g.ops (finalize env data g.key) =
      (g.ops.map fun w => (w.1, env.extractRawBytes w.2)).foldl
        (fun group p => Function.update group p.1 p.2) (finalize env data g.key) := by
    rw [List.foldl_map]
    rfl
  rw [hops, finalize, applyWrites_eq h]
  cases hl : g.ops.lookup t with
  | some v =>
    have hmem := mem_of_lookup hl
    rw [foldl_update_of_mem ⟨_, group_mem_writes.mpr ⟨g, hg, rfl, hmem⟩, rfl⟩ (b := v),
      foldl_update_of_mem ⟨_, List.mem_map_of_mem hmem, rfl⟩ (b := env.extractRawBytes v)]
    · intro p hp ht
      obtain ⟨w, hw, rfl⟩ := List.mem_map.mp hp
      obtain ⟨t', v'⟩ := w
      obtain rfl : t' = t := ht
      rw [Option.some_inj.mp ((lookup_of_mem g.ops_nodup hw).symm.trans hl)]
    · rintro ⟨l, v'⟩ hp rfl
      obtain ⟨g', hg', hkey, hmem'⟩ := group_mem_writes.mp hp
      obtain rfl := groupWrite_inj hg' hg hkey
      exact Option.some_inj.mp ((lookup_of_mem g'.ops_nodup hmem').symm.trans hl)
  | none =>
    have hnot : ∀ v, (t, v) ∉ g.ops := fun v hv => by
      rw [lookup_of_mem g.ops_nodup hv] at hl
      cases hl
    rw [foldl_update_of_not_mem, foldl_update_of_not_mem, finalize]
    · intro p hp ht
      obtain ⟨w, hw, rfl⟩ := List.mem_map.mp hp
      exact hnot w.2 (ht ▸ hw)
    · rintro ⟨l, v'⟩ hp rfl
      obtain ⟨g', hg', hkey, hmem'⟩ := group_mem_writes.mp hp
      obtain rfl := groupWrite_inj hg' hg hkey
      exact hnot v' hmem'

/-- A group that is not written stays as it is. -/
theorem finalize_of_not_mem {deltaWrites : List (S.Key × S.Value)} {k : S.Key}
    (hk : ∀ g ∈ o.resourceGroupWriteSet, g.key ≠ k)
    (h : applyWrites env (o.writes deltaWrites) data = .ok data') :
    finalize env data' k = finalize env data k := by
  funext t
  rw [finalize, finalize, applyWrites_eq h, foldl_update_of_not_mem]
  rintro ⟨l, v⟩ hp rfl
  obtain ⟨g, hg, hkey, -⟩ := group_mem_writes.mp hp
  exact hk g hg hkey

/-- **What the second attempt looks at** are the groups as they are after the output is
applied. -/
theorem serializationError_eq_false {deltaWrites : List (S.Key × S.Value)}
    (h : applyWrites env (o.writes deltaWrites) data = .ok data') :
    serializationError env data o = false ↔
      ∀ g ∈ groupsToFinalize env o, env.bcsFails (finalize env data' g.1) = false := by
  simp only [serializationError, groupsToFinalize, Bool.or_eq_false_iff, List.any_eq_false,
    Bool.not_eq_true, List.forall_mem_append, List.forall_mem_map]
  have hwrites : (∀ g ∈ o.resourceGroupWriteSet,
        env.bcsFails (applyGroupOps env g.ops (finalize env data g.key)) = false) ↔
      ∀ g ∈ o.resourceGroupWriteSet, env.bcsFails (finalize env data' g.key) = false :=
    forall₂_congr fun g hg => by rw [finalize_of_mem hg h]
  rw [hwrites, and_comm]
  refine and_congr_right fun _ => forall₂_congr fun r hr => ?_
  rw [finalize_of_not_mem (o.groupReads_not_written r hr) h]

/-- "The IDs are not exchanged but it doesn't change the types (Bytes) or size": whether a group
can be serialized does not depend on the values of the delayed fields in it. -/
def SerializesAlike (env : Env S) : Prop :=
  ∀ fields group group' metadataOp, env.mapIdToValuesInGroup fields group = .ok group' →
    ((env.serializeGroup metadataOp group').isSome ↔
      env.bcsFails (fun t => (group t).bind env.extractRawBytes) = false)

theorem finalizeGroup_bind (env : Env S) (data : Loc S → S.Value) (k : S.Key) :
    (fun t => (finalizeGroup env data k t).bind env.extractRawBytes) = finalize env data k := by
  funext t
  rw [finalizeGroup, finalize]
  cases hraw : env.extractRawBytes (data (.group k t)) with
  | none => simp
  | some b => simp [hraw]

/-- The groups that are finalized. -/
theorem finalizeGroups_eq {group : S.Key → Group S} {groups : List (FinalizedGroup S)}
    (h : finalizeGroups env group o = .ok groups) :
    groups = (groupsToFinalize env o).map fun g => ⟨g.1, g.2.1, group g.1⟩ := by
  have hmap : groups.map id =
      (groupsToFinalize env o).map fun g => ⟨g.1, g.2.1, group g.1⟩ :=
    map_eq_of_mapM_eq_ok h fun g fg hg => by
      obtain ⟨_, -, hg⟩ := exists_of_bind_eq_ok hg
      cases hg
      rfl
  rwa [List.map_id] at hmap

/-- Exchanged groups can be serialized if those before can be. -/
theorem serializeGroups_exchanged (h : SerializesAlike env)
    {groups groups' : List (FinalizedGroup S)}
    (hgroups : mapIdToValuesInGroupWrites env fields groups = .ok groups') :
    (serializeGroups env groups').isSome ↔
      ∀ g ∈ groups, env.bcsFails (fun t => (g.group t).bind env.extractRawBytes) = false := by
  rw [serializeGroups, mapM_isSome]
  have hforall := mapM_eq_ok.mp hgroups
  clear hgroups
  induction hforall with
  | nil => simp
  | @cons g g' _ _ hg _ ih =>
    rw [List.forall_mem_cons, List.forall_mem_cons]
    refine and_congr ?_ ih
    cases hmap : env.mapIdToValuesInGroup fields g.group with
    | error msg =>
      rw [hmap] at hg
      cases hg
    | ok group' =>
      rw [hmap] at hg
      cases hg
      rw [Option.isSome_map]
      exact h fields g.group group' g.metadataOp hmap

/-- **The second attempt knows** whether the groups of an output can be serialized. -/
theorem serializeGroups_isSome (h : SerializesAlike env) {deltaWrites : List (S.Key × S.Value)}
    {groups groups' : List (FinalizedGroup S)}
    (hwrites : applyWrites env (o.writes deltaWrites) data = .ok data')
    (hfinal : finalizeGroups env (finalizeGroup env data') o = .ok groups)
    (hgroups : mapIdToValuesInGroupWrites env fields groups = .ok groups') :
    (serializeGroups env groups').isSome ↔ serializationError env data o = false := by
  rw [serializeGroups_exchanged h hgroups, serializationError_eq_false hwrites,
    finalizeGroups_eq hfinal, List.forall_mem_map]
  refine forall₂_congr fun g _ => ?_
  rw [finalizeGroup_bind]

end Groups

/-! ### The second attempt -/

section Fallback

variable {idx : ℕ} {vm : Vm S}

/-- The state after a transaction is discarded: it is accounted for, and changes nothing else. -/
def discarded (env : Env S) (idx : ℕ) (reads : List (Request S × Answer S)) (o : Output S)
    (st : SeqState S) : SeqState S :=
  { account env idx (reads.map Prod.fst) o st with
    ret := st.ret ++ [.discardOutput .delayedMaterializationCodeInvariantError] }

theorem orFatal_ne {α : Type} (x : Except String α) :
    orFatal x ≠ .error (.resourceGroupSerializationError : SequentialError S) := by
  cases x <;> simp [orFatal]

theorem orPanic_ne {α : Type} (x : Option α) :
    orPanic x ≠ .error (.resourceGroupSerializationError : SequentialError S) := by
  cases x <;> simp [orPanic]

theorem orFatal_eq_ok {α : Type} {x : Except String α} {a : α} :
    (orFatal x : Except (SequentialError S) α) = .ok a ↔ x = .ok a := by
  cases x <;> simp [orFatal]

theorem applyOutputSequential_eq_ok {data data' : Loc S → S.Value}
    {delayed delayed' : DelayedFields S} {deltaWrites : List (S.Key × S.Value)}
    (h : applyOutputSequential env o deltaWrites data delayed = .ok (data', delayed')) :
    applyWrites env (o.writes deltaWrites) data = .ok data' ∧
      applyDelayedFieldChanges env delayed o.delayedFieldChangeSet = some delayed' := by
  obtain ⟨data₁, hdata, h⟩ := exists_of_bind_eq_ok h
  obtain ⟨delayed₁, hdelayed, h⟩ := exists_of_bind_eq_ok h
  cases h
  refine ⟨orFatal_eq_ok.mp hdata, ?_⟩
  cases hchanges : applyDelayedFieldChanges env delayed o.delayedFieldChangeSet with
  | none =>
    rw [hchanges] at hdelayed
    cases hdelayed
  | some delayed₂ =>
    rw [hchanges] at hdelayed
    cases hdelayed
    rfl

/-- The groups of an output that was applied are serialized, unless the second attempt would have
discarded it. -/
theorem materializeGroups_cases (h : SerializesAlike env) {data data' : Loc S → S.Value}
    {fields : DelayedFields S} {deltaWrites : List (S.Key × S.Value)}
    (hwrites : applyWrites env (o.writes deltaWrites) data = .ok data') :
    (∀ serialized, materializeGroups env data' fields o = .ok serialized →
        serializationError env data o = false) ∧
      (materializeGroups env data' fields o = .error .resourceGroupSerializationError →
        serializationError env data o = true) := by
  refine ⟨fun serialized hok => ?_, fun herror => ?_⟩
  · obtain ⟨groups, hfinal, hok⟩ := exists_of_bind_eq_ok hok
    obtain ⟨groups', hgroups, hok⟩ := exists_of_bind_eq_ok hok
    refine (serializeGroups_isSome h hwrites (orFatal_eq_ok.mp hfinal)
      (orFatal_eq_ok.mp hgroups)).mp ?_
    cases hs : serializeGroups env groups' with
    | none =>
      rw [hs] at hok
      cases hok
    | some serialized => rfl
  · rcases of_bind_eq_error herror with herror | ⟨groups, hfinal, herror⟩
    · exact absurd herror (orFatal_ne _)
    rcases of_bind_eq_error herror with herror | ⟨groups', hgroups, herror⟩
    · exact absurd herror (orFatal_ne _)
    have hiff := serializeGroups_isSome h hwrites (orFatal_eq_ok.mp hfinal)
      (orFatal_eq_ok.mp hgroups)
    cases hs : serializeGroups env groups' with
    | none =>
      rw [hs] at hiff
      simpa using hiff
    | some serialized =>
      rw [hs] at herror
      cases herror

/-- The second attempt discards an output, because the first one cannot serialize its groups, or
does what the first one does. -/
theorem commitOutput_fallback (h : SerializesAlike env) (idx : ℕ)
    (reads : List (Request S × Answer S)) (o : Output S) (st : SeqState S) :
    commitOutput env true idx reads o st = .ok (discarded env idx reads o st, true) ∧
        (∀ p, commitOutput env false idx reads o st ≠ .ok p) ∨
      commitOutput env true idx reads o st = commitOutput env false idx reads o st ∧
        commitOutput env false idx reads o st ≠ .error .resourceGroupSerializationError := by
  cases hdelta : materializeAggV1 env (account env idx (reads.map Prod.fst) o st).data o with
  | none => exact .inr (by simp [commitOutput, hdelta, orPanic])
  | some deltaWrites =>
    cases hse : serializationError env (account env idx (reads.map Prod.fst) o st).data o with
    | true =>
      refine .inl ⟨?_, fun p hp => ?_⟩
      · simp only [commitOutput, hdelta, orPanic, ok_bind, hse, Bool.and_self, if_true]
        rfl
      simp only [commitOutput, hdelta, orPanic, ok_bind, Bool.false_and] at hp
      obtain ⟨⟨data', delayed'⟩, happly, hp⟩ := exists_of_bind_eq_ok hp
      obtain ⟨output, houtput, -⟩ := exists_of_bind_eq_ok hp
      obtain ⟨serialized, hserialized, -⟩ := exists_of_bind_eq_ok houtput
      have hfalse := (materializeGroups_cases h (applyOutputSequential_eq_ok happly).1).1
        serialized hserialized
      rw [hse] at hfalse
      cases hfalse
    | false =>
      refine .inr ⟨by simp [commitOutput, hdelta, orPanic, hse], ?_⟩
      simp only [commitOutput, hdelta, orPanic, ok_bind, Bool.false_and]
      refine bind_ne_error ?_ ?_
      · exact bind_ne_error (orFatal_ne _) fun _ _ => bind_ne_error (orPanic_ne _) (by simp)
      · rintro ⟨data', delayed'⟩ happly
        refine bind_ne_error (bind_ne_error (fun herror => ?_) fun _ _ => orFatal_ne _) ?_
        · have htrue := (materializeGroups_cases h (applyOutputSequential_eq_ok happly).1).2 herror
          rw [hse] at htrue
          cases htrue
        · intro output _
          split <;> simp

/-- A round of the second attempt discards its transaction, because the first attempt fails there,
or does what the first attempt does. -/
theorem executeSequential_fallback (h : SerializesAlike env) (idx : ℕ) (vm : Vm S)
    (st : SeqState S) :
    (∃ reads o, executeSequential env true idx vm st =
        .ok (discarded env idx reads o st, false)) ∧
        (∀ p, executeSequential env false idx vm st ≠ .ok p) ∨
      executeSequential env true idx vm st = executeSequential env false idx vm st ∧
        executeSequential env false idx vm st ≠ .error .resourceGroupSerializationError := by
  cases ho : (vm.capture (st.view env) []).2.output? with
  | none =>
    obtain ⟨e, he⟩ := executeSequential_of_no_output idx ho
    exact .inr (by simp [he])
  | some o =>
    obtain ⟨stop, hstop⟩ := executeSequential_of_output idx ho
    rcases commitOutput_fallback h idx (vm.capture (st.view env) []).1 o st with
      ⟨htrue, hfalse⟩ | ⟨heq, hne⟩
    · refine .inl ⟨⟨(vm.capture (st.view env) []).1, o, ?_⟩, fun p hp => ?_⟩
      · rw [hstop true, htrue, ok_bind]
        rfl
      · rw [hstop false] at hp
        obtain ⟨p', hp', -⟩ := exists_of_bind_eq_ok hp
        exact hfalse p' hp'
    · refine .inr ⟨by rw [hstop true, hstop false, heq], fun hp => hne ?_⟩
      rw [hstop false] at hp
      exact bind_ok_eq_error.mp hp

/-- The second attempt never fails for the serialization of a group. -/
theorem sequentialLoop_ne (h : SerializesAlike env) (vms : List (Vm S)) (idx : ℕ)
    (st : SeqState S) :
    sequentialLoop env true vms idx st ≠ .error .resourceGroupSerializationError := by
  induction vms generalizing idx st with
  | nil => simp [sequentialLoop]
  | cons vm vms ih =>
    rw [sequentialLoop]
    rcases executeSequential_fallback h idx vm st with ⟨⟨reads, o, htrue⟩, -⟩ | ⟨heq, hne⟩
    · rw [htrue]
      exact ih _ _
    · rw [heq]
      refine bind_ne_error hne ?_
      rintro ⟨st', stop⟩ -
      cases stop with
      | true => simp
      | false => exact ih _ _

/-- The second attempt comes to where the first attempt has come, in the same state. -/
theorem loop_eq_fallback {k : ℕ} (h : SerializesAlike env) (hrounds : SeqPrefix env k st) :
    sequentialLoop env true env.block 0 (SeqState.init env) =
      sequentialLoop env true (env.block.drop k) k st := by
  induction hrounds with
  | init => rfl
  | @next k st st' vm _ hvm hround ih =>
    obtain ⟨hk, hget⟩ := List.getElem?_eq_some_iff.mp hvm
    rcases executeSequential_fallback h k vm st with ⟨-, hfalse⟩ | ⟨heq, -⟩
    · exact absurd hround (hfalse _)
    · rw [ih, List.drop_eq_getElem_cons hk, hget, sequentialLoop, heq, hround]
      rfl

/-- Where the first attempt fails. -/
theorem exists_failing_round {k : ℕ} {e : SequentialError S} (hrounds : SeqPrefix env k st)
    (herror : sequentialLoop env false (env.block.drop k) k st = .error e) :
    ∃ j st vm, SeqPrefix env j st ∧ env.block[j]? = some vm ∧
      executeSequential env false j vm st = .error e := by
  induction hn : env.block.length - k generalizing k st with
  | zero =>
    rw [List.drop_eq_nil_of_le (by omega)] at herror
    cases herror
  | succ n ih =>
    have hk : k < env.block.length := by omega
    have hvm : env.block[k]? = some env.block[k] := List.getElem?_eq_getElem hk
    rw [List.drop_eq_getElem_cons hk, sequentialLoop] at herror
    rcases of_bind_eq_error herror with hround | ⟨⟨st', stop⟩, hround, herror⟩
    · exact ⟨k, st, _, hrounds, hvm, hround⟩
    · cases stop with
      | true => cases herror
      | false => exact ih (hrounds.next hvm hround) herror (by omega)

/-- What is done with an output adds one to those returned. -/
theorem commitOutput_ret {fallback goOn : Bool} {reads : List (Request S × Answer S)}
    {st' : SeqState S} (h : commitOutput env fallback idx reads o st = .ok (st', goOn)) :
    ∃ output, st'.ret = st.ret ++ [output] := by
  obtain ⟨deltaWrites, -, h⟩ := exists_of_bind_eq_ok h
  split at h
  · cases h
    exact ⟨_, rfl⟩
  · obtain ⟨⟨data, delayed⟩, -, h⟩ := exists_of_bind_eq_ok h
    obtain ⟨output, -, h⟩ := exists_of_bind_eq_ok h
    split at h
    · cases h
    · cases h
      exact ⟨output, rfl⟩

/-- Every round adds one output. -/
theorem executeSequential_ret {fallback stop : Bool} {st' : SeqState S}
    (h : executeSequential env fallback idx vm st = .ok (st', stop)) :
    ∃ output, st'.ret = st.ret ++ [output] := by
  cases ho : (vm.capture (st.view env) []).2.output? with
  | none =>
    obtain ⟨e, he⟩ := executeSequential_of_no_output idx ho
    rw [he fallback] at h
    cases h
  | some o =>
    obtain ⟨stop, hstop⟩ := executeSequential_of_output idx ho
    rw [hstop fallback] at h
    obtain ⟨⟨st₁, goOn⟩, hcommit, heq⟩ := exists_of_bind_eq_ok h
    cases heq
    exact commitOutput_ret hcommit

/-- The loop only adds outputs. -/
theorem sequentialLoop_ret {fallback : Bool} {vms : List (Vm S)} {st' : SeqState S}
    (h : sequentialLoop env fallback vms idx st = .ok st') : ∃ more, st'.ret = st.ret ++ more := by
  induction vms generalizing idx st with
  | nil =>
    cases h
    exact ⟨[], (List.append_nil _).symm⟩
  | cons vm vms ih =>
    obtain ⟨⟨st₁, stop⟩, hround, h⟩ := exists_of_bind_eq_ok h
    obtain ⟨output, houtput⟩ := executeSequential_ret hround
    cases stop with
    | true =>
      cases h
      exact ⟨[output], houtput⟩
    | false =>
      obtain ⟨more, hmore⟩ := ih h
      exact ⟨output :: more, by rw [hmore, houtput, List.append_assoc]; rfl⟩

theorem length_of_rounds {k : ℕ} (h : SeqPrefix env k st) : st.ret.length = k := by
  induction h with
  | init => rfl
  | next _ _ hround ih =>
    obtain ⟨output, houtput⟩ := executeSequential_ret hround
    rw [houtput, List.length_append, ih, List.length_singleton]

/-- Without parallel execution, or where it has failed and fallback is allowed, the block is
executed in sequence. -/
theorem executeBlock_of_fallback {config : Config} {parallel : Option (List (Final S))}
    (hallow : config.allowFallback = true)
    (hparallel : config.concurrencyLevel ≤ 1 ∨ parallel = none) :
    executeBlock env config parallel = executeBlockSequential env config := by
  rcases hparallel with hlevel | rfl
  · simp [executeBlock, Nat.not_lt.mpr hlevel]
  · simp [executeBlock, hallow]

/-- **The second attempt.** After a group could not be serialized, it never fails for that reason
again, so that `execute_block` does not come to its last case. If it returns, the transactions
before the one at which the first attempt failed have the outputs they had there, and that one is
discarded. -/
theorem fallback_outputs (h : SerializesAlike env)
    (hfirst : executeTransactionsSequential env false =
      .error .resourceGroupSerializationError) :
    executeTransactionsSequential env true ≠ .error .resourceGroupSerializationError ∧
      (∀ config parallel, config.allowFallback = true →
        config.concurrencyLevel ≤ 1 ∨ parallel = none → executeBlock env config parallel =
          match executeTransactionsSequential env true with
          | .ok ret => .outputs ret
          | .error (.errorToReturn e) => failBlock env config e
          | .error _ => .panic) ∧
      ∃ k st vm, SeqPrefix env k st ∧ env.block[k]? = some vm ∧
        executeSequential env false k vm st = .error .resourceGroupSerializationError ∧
        ∀ ret, executeTransactionsSequential env true = .ok ret →
          ret.take k = st.ret ∧
          ret[k]? = some (.discardOutput .delayedMaterializationCodeInvariantError) := by
  have hne : executeTransactionsSequential env true ≠ .error .resourceGroupSerializationError :=
    fun hsecond => sequentialLoop_ne h _ _ _ (bind_ok_eq_error.mp hsecond)
  refine ⟨hne, fun config parallel hallow hparallel => ?_, ?_⟩
  · rw [executeBlock_of_fallback hallow hparallel, executeBlockSequential, hfirst]
    simp only [hallow, Bool.not_true, Bool.false_eq_true, if_false]
    cases hsecond : executeTransactionsSequential env true with
    | ok ret => rfl
    | error e =>
      cases e with
      | resourceGroupSerializationError => exact absurd hsecond hne
      | errorToReturn e => rfl
      | panic => rfl
  · obtain ⟨k, st, vm, hrounds, hvm, hround⟩ :=
      exists_failing_round .init (bind_ok_eq_error.mp hfirst)
    refine ⟨k, st, vm, hrounds, hvm, hround, fun ret hsecond => ?_⟩
    obtain ⟨hk, hget⟩ := List.getElem?_eq_some_iff.mp hvm
    obtain ⟨st', hloop, rfl⟩ := bind_ok_eq_ok.mp hsecond
    rw [loop_eq_fallback h hrounds, List.drop_eq_getElem_cons hk, hget, sequentialLoop] at hloop
    rcases executeSequential_fallback h k vm st with ⟨⟨reads, o, htrue⟩, -⟩ | ⟨-, hnot⟩
    · rw [htrue] at hloop
      obtain ⟨more, hmore⟩ := sequentialLoop_ret hloop
      obtain rfl := length_of_rounds hrounds
      rw [hmore]
      exact ⟨by simp [discarded], by simp [discarded]⟩
    · exact absurd hround hnot

/-- Values are numbers, zero is a deletion, and there is one group with one resource. -/
def groupSig : Sig where
  Key := Unit
  Tag := Unit
  Value := ℕ
  Bytes := ℕ
  Metadata := Unit
  DeltaOp := Unit
  Identifier := Unit
  DelayedValue := Unit
  DelayedApply := Unit
  Query := Unit
  Event := Unit
  Summary := Unit
  Limit := Unit
  ModulePaths := Unit
  Error := Unit
  keyKind := fun _ => .group

/-- The output that writes a number to the group. -/
def writeGroup (n : ℕ) : Output groupSig where
  resourceGroupWriteSet := [⟨(), (1 : ℕ), [((), n)], List.nodup_singleton _, rfl⟩]
  resourceWriteSet := []
  aggregatorV1WriteSet := []
  moduleWriteSet := []
  aggregatorV1DeltaSet := []
  delayedFieldChangeSet := []
  readsNeedingDelayedFieldExchange := []
  groupReadsNeedingDelayedFieldExchange := []
  events := []
  summary := ()
  keys_nodup := List.nodup_singleton _
  resource_kind := by simp
  module_kind := by simp
  groupReads_not_written := by simp

/-- The output of a transaction that has read the group. -/
def readGroup : Output groupSig :=
  { writeGroup 0 with
    resourceGroupWriteSet := []
    groupReadsNeedingDelayedFieldExchange := [((), ())]
    keys_nodup := List.nodup_nil
    groupReads_not_written := by simp }

/-- The bytes of a number. -/
def numberBytes (n : ℕ) : Option ℕ := if n = 0 then none else some n

/-- The group with the number two cannot be serialized. -/
def isTwo (resource : Option ℕ) : Bool := resource = some 2

/-- Three transactions, of which the second writes to the group what cannot be serialized. -/
def groupBlock : Env groupSig where
  block := [.done (.success (writeGroup 1)), .done (.success (writeGroup 2)),
    .done (.success readGroup)]
  base := fun _ => (0 : ℕ)
  baseDelayed := fun _ => none
  generateId := fun _ _ => ()
  extractRawBytes := numberBytes
  applyDelta := fun _ v => some v
  observe := fun _ _ => none
  getApplyBaseId := fun _ id => .previous id
  applyToBase := fun _ v => some v
  groupOpError := fun _ _ => none
  bcsFails := fun group => isTwo (group ())
  readMetadataOp := fun _ => (1 : ℕ)
  finalizedGroupError := fun _ _ _ _ => none
  mapIdToValuesInGroup := fun _ group => .ok group
  serializeGroup := fun metadataOp group =>
    if isTwo ((group ()).bind numberBytes) then none else some metadataOp
  resourceWritesToMaterialize := fun _ _ _ => .ok []
  mapIdToValuesInWriteSet := fun _ writes => .ok writes
  mapIdToValuesEvents := fun _ events => .ok events
  incorporateError := fun _ _ _ _ => none
  isIncorrectUse := fun _ => false
  newModulePaths := ()
  checkAndAppendModuleRwConflict := fun _ _ _ => (false, ())
  newLimit := ()
  accumulateFeeStatement := fun limit _ _ _ => limit
  processModuleRwConflict := fun limit => limit
  shouldEndBlockSequential := fun _ => false
  shouldEndBlockParallel := fun _ => false

theorem serializesAlike_groupBlock : SerializesAlike groupBlock := by
  intro fields group group' metadataOp hgroup
  cases hgroup
  show (if isTwo ((group ()).bind numberBytes) then none else some metadataOp : Option ℕ).isSome ↔
    isTwo ((group ()).bind numberBytes) = false
  cases isTwo ((group ()).bind numberBytes) with
  | false => exact iff_of_true rfl rfl
  | true => simp

/-- The second transaction is discarded, and the third reads what the first has written. -/
theorem fallback_outputs_group :
    executeTransactionsSequential groupBlock false = .error .resourceGroupSerializationError ∧
    executeTransactionsSequential groupBlock true =
      .ok [.materialized (writeGroup 1) [] [((), (1 : ℕ))] [],
        .discardOutput .delayedMaterializationCodeInvariantError,
        .materialized readGroup [] [((), (1 : ℕ))] []] ∧
    executeTransactionsSequential groupBlock true ≠ .error .resourceGroupSerializationError :=
  ⟨rfl, rfl, (fallback_outputs serializesAlike_groupBlock rfl).1⟩

end Fallback

end BlockExecution

end Aptos

end RelayContracts
