import RelayContracts.ReadProgram
import Mathlib.Logic.Function.Basic
import Mathlib.Data.List.Nodup

/-!
# The block executor, one transaction after another

The executor of the modified Aptos node runs a block of transactions in parallel or in sequence.
This file has what both share, and the sequential executor: for each transaction it runs the VM on
the state the earlier ones left, accounts for its fee, turns its deltas into writes, applies its
writes, materializes its output, and stops where a transaction asks for it or the block is full; the
outputs of the transactions that were not run are filled in.

What the executor is generic over, or takes from crates and files that are not here, is in `Sig` and
`Env`. The VM is a program that asks for what it needs (`ReadProgram`): values, answers about the
delayed fields, and new identifiers for delayed fields, which are drawn from a counter that runs
through the block.

A key is a path to a resource, to a resource group or to a module, and says itself which, so an
`Output` cannot write a module under the key of a resource. Its write sets are maps, and no key is
in two of them. A place that is empty holds a deletion.

## Main definitions

* `Sig`, `Env`, `Output`, `ExecutionStatus` — what the executor is given
* `applyOutputSequential` — the writes and the delayed fields of an output
* `serializationError` — what the second attempt looks at before it applies an output
* `materializeOutput` — groups, resources and events, with the delayed fields in them
* `executeTransactionsSequential` — the sequential executor
-/

namespace RelayContracts

namespace Aptos

namespace BlockExecutor

/-- What kind of path a key is. -/
inductive KeyKind where
  /-- The path of a resource. -/
  | resource
  /-- The path of a module. -/
  | modulePath
  /-- The path of a resource group. -/
  | group
  deriving DecidableEq

/-- The types the executor is generic over, and those it takes from other crates. -/
structure Sig where
  /-- `T::Key`. -/
  Key : Type
  /-- `T::Tag`, which names a resource within its group. -/
  Tag : Type
  /-- `T::Value`. A deletion is a value too. -/
  Value : Type
  /-- `Bytes`. -/
  Bytes : Type
  /-- `StateValueMetadata`. -/
  Metadata : Type
  /-- `DeltaOp`, a change to an aggregator. -/
  DeltaOp : Type
  /-- `T::Identifier`, which names a delayed field. -/
  Identifier : Type
  /-- `DelayedFieldValue`. -/
  DelayedValue : Type
  /-- `DelayedApplyChange`. -/
  DelayedApply : Type
  /-- What the VM can ask about the delayed fields. -/
  Query : Type
  /-- `T::Event`. -/
  Event : Type
  /-- What else an output has: its fee statement and its size. -/
  Summary : Type
  /-- `BlockGasLimitProcessor`. -/
  Limit : Type
  /-- The modules read and written so far, in a `TxnLastInputOutput`. -/
  ModulePaths : Type
  /-- `E::Error`. -/
  Error : Type
  /-- The kind of a key. -/
  keyKind : Key → KeyKind
  [decKey : DecidableEq Key]
  [decTag : DecidableEq Tag]
  [decIdentifier : DecidableEq Identifier]
  [decQuery : DecidableEq Query]

attribute [instance] Sig.decKey Sig.decTag Sig.decIdentifier Sig.decQuery

variable {S : Sig}

/-- A place that holds a value of its own. -/
inductive Loc (S : Sig) where
  /-- A resource, an aggregator, or the metadata of a group. -/
  | data (k : S.Key)
  /-- A module. -/
  | modules (k : S.Key)
  /-- A resource within a group. -/
  | group (k : S.Key) (t : S.Tag)
  deriving DecidableEq

/-- What the VM asks for. -/
inductive Request (S : Sig) where
  /-- The value at a place. -/
  | loc (l : Loc S)
  /-- Something about the delayed fields. -/
  | delayed (q : S.Query)
  /-- The identifier of a new delayed field, the `n`-th of the transaction. -/
  | identifier (n : ℕ)
  deriving DecidableEq

/-- What the VM is answered. -/
inductive Answer (S : Sig) where
  /-- A value, unless there is none. -/
  | value (v : Option S.Value)
  /-- An identifier. -/
  | identifier (id : S.Identifier)

/-- A change to a delayed field. -/
inductive DelayedChange (S : Sig) where
  /-- The field is new. -/
  | create (v : S.DelayedValue)
  /-- The field is computed from another. -/
  | apply (a : S.DelayedApply)

/-- Which value of its base a change is applied to: the one before the transaction, or the one the
transaction leaves. -/
inductive ApplyBase (S : Sig) where
  /-- The value before the transaction. -/
  | previous (id : S.Identifier)
  /-- The value after the transaction. -/
  | current (id : S.Identifier)

/-- The writes to one resource group. -/
structure GroupWrite (S : Sig) where
  /-- The key of the group. -/
  key : S.Key
  /-- The operation on the group's metadata. -/
  metadataOp : S.Value
  /-- The operations on the resources of the group. -/
  ops : List (S.Tag × S.Value)
  /-- The operations are a map. -/
  ops_nodup : (ops.map Prod.fst).Nodup
  /-- The key is one of a group. -/
  kind : S.keyKind key = .group

/-- The output of a transaction. -/
structure Output (S : Sig) where
  /-- `resource_group_write_set`. -/
  resourceGroupWriteSet : List (GroupWrite S)
  /-- `resource_write_set`. -/
  resourceWriteSet : List (S.Key × S.Value)
  /-- `aggregator_v1_write_set`. -/
  aggregatorV1WriteSet : List (S.Key × S.Value)
  /-- `module_write_set`. -/
  moduleWriteSet : List (S.Key × S.Value)
  /-- `aggregator_v1_delta_set`. -/
  aggregatorV1DeltaSet : List (S.Key × S.DeltaOp)
  /-- `delayed_field_change_set`. -/
  delayedFieldChangeSet : List (S.Identifier × DelayedChange S)
  /-- `reads_needing_delayed_field_exchange`. -/
  readsNeedingDelayedFieldExchange : List (S.Key × S.Metadata)
  /-- `group_reads_needing_delayed_field_exchange`. -/
  groupReadsNeedingDelayedFieldExchange : List (S.Key × S.Metadata)
  /-- `get_events`. -/
  events : List S.Event
  /-- The rest. -/
  summary : S.Summary
  /-- The write sets are maps, and no key is in two of them. -/
  keys_nodup : (resourceGroupWriteSet.map GroupWrite.key ++ resourceWriteSet.map Prod.fst ++
    aggregatorV1WriteSet.map Prod.fst ++ moduleWriteSet.map Prod.fst ++
    aggregatorV1DeltaSet.map Prod.fst).Nodup
  /-- Resources and aggregators are written under keys of resources. -/
  resource_kind : ∀ k ∈ resourceWriteSet.map Prod.fst ++ aggregatorV1WriteSet.map Prod.fst ++
    aggregatorV1DeltaSet.map Prod.fst, S.keyKind k = .resource
  /-- Modules are written under keys of modules. -/
  module_kind : ∀ k ∈ moduleWriteSet.map Prod.fst, S.keyKind k = .modulePath
  /-- The delayed fields of a group that is written are exchanged with the write, not the read. -/
  groupReads_not_written : ∀ g ∈ groupReadsNeedingDelayedFieldExchange,
    ∀ w ∈ resourceGroupWriteSet, w.key ≠ g.1

/-- How the execution of a transaction ended. -/
inductive ExecutionStatus (S : Sig) where
  /-- The transaction has an output. -/
  | success (o : Output S)
  /-- The transaction has an output, and the rest of the block is to be skipped. -/
  | skipRest (o : Output S)
  /-- The VM failed. -/
  | abort (e : S.Error)
  /-- The execution could not go on with what it had read. -/
  | speculativeExecutionAbortError (msg : String)
  /-- The delayed fields were used wrongly. -/
  | delayedFieldsCodeInvariantError (msg : String)

/-- The output, if there is one. -/
def ExecutionStatus.output? : ExecutionStatus S → Option (Output S)
  | .success o => some o
  | .skipRest o => some o
  | .abort _ => none
  | .speculativeExecutionAbortError _ => none
  | .delayedFieldsCodeInvariantError _ => none

/-- The VM on one transaction. -/
abbrev Vm (S : Sig) := ReadProgram (Request S) (Answer S) (ExecutionStatus S)

/-- The values of delayed fields. -/
abbrev DelayedFields (S : Sig) := S.Identifier → Option S.DelayedValue

/-- The resources of a group. -/
abbrev Group (S : Sig) := S.Tag → Option S.Value

/-- What the executor is given. An error of type `String` is a `PanicError`. -/
structure Env (S : Sig) where
  /-- The block, as the programs the VM runs. -/
  block : List (Vm S)
  /-- The state before the block. -/
  base : Loc S → S.Value
  /-- The delayed fields before the block. -/
  baseDelayed : DelayedFields S
  /-- The `n`-th identifier of the counter that starts at `gen_id_start_value(sequential)`. -/
  generateId : (sequential : Bool) → (n : ℕ) → S.Identifier
  /-- `extract_raw_bytes`. A deletion has none. -/
  extractRawBytes : S.Value → Option S.Bytes
  /-- `apply_to` of a delta. -/
  applyDelta : S.DeltaOp → S.Value → Option S.Value
  /-- What a query is answered, given the values of the delayed fields. -/
  observe : S.Query → DelayedFields S → Option S.Value
  /-- `get_apply_base_id`. -/
  getApplyBaseId : S.DelayedApply → S.Identifier → ApplyBase S
  /-- `apply_to_base`. -/
  applyToBase : S.DelayedApply → S.DelayedValue → Option S.DelayedValue
  /-- What `insert_group_op` finds wrong with an operation on a resource. -/
  groupOpError : (existing op : S.Value) → Option String
  /-- `bcs::to_bytes` of a map of resources fails. -/
  bcsFails : (S.Tag → Option S.Bytes) → Bool
  /-- The metadata operation that `groups_to_finalize!` makes for a group that was read. -/
  readMetadataOp : S.Metadata → S.Value
  /-- What `map_finalized_group` finds wrong with a group. -/
  finalizedGroupError : S.Key → Group S → (metadataOp : S.Value) →
    (isReadNeedingExchange : Bool) → Option String
  /-- `map_id_to_values_in_group_writes`, of one group. -/
  mapIdToValuesInGroup : DelayedFields S → Group S → Except String (Group S)
  /-- `serialize_groups`, of one group: the write to its key, unless serialization fails. -/
  serializeGroup : (metadataOp : S.Value) → Group S → Option S.Value
  /-- `resource_writes_to_materialize!`, of the writes, the reads that need an exchange and the
  values in the cache. -/
  resourceWritesToMaterialize : List (S.Key × S.Value) → List (S.Key × S.Metadata) →
    (S.Key → S.Value) → Except String (List (S.Key × S.Value))
  /-- `map_id_to_values_in_write_set`. -/
  mapIdToValuesInWriteSet : DelayedFields S → List (S.Key × S.Value) →
    Except String (List (S.Key × S.Value))
  /-- `map_id_to_values_events`. -/
  mapIdToValuesEvents : DelayedFields S → List S.Event → Except String (List S.Event)
  /-- What `incorporate_materialized_txn_output` finds wrong with the writes of the deltas, the
  materialized writes and the events. -/
  incorporateError : Output S → (deltaWrites writes : List (S.Key × S.Value)) → List S.Event →
    Option String
  /-- `is_incorrect_use`, of the view that the VM made these reads through. -/
  isIncorrectUse : List (Request S × Answer S) → Bool
  /-- `TxnLastInputOutput::new`, for the modules. -/
  newModulePaths : S.ModulePaths
  /-- `check_and_append_module_rw_conflict`, of the modules read and written. -/
  checkAndAppendModuleRwConflict : S.ModulePaths → (reads writes : List S.Key) →
    Bool × S.ModulePaths
  /-- `BlockGasLimitProcessor::new`. -/
  newLimit : S.Limit
  /-- `accumulate_fee_statement`, with what it is given of the transaction with this index, its
  output and its reads. -/
  accumulateFeeStatement : S.Limit → (idx : ℕ) → Output S → List (Request S) → S.Limit
  /-- `process_module_rw_conflict`. -/
  processModuleRwConflict : S.Limit → S.Limit
  /-- `should_end_block_sequential`. -/
  shouldEndBlockSequential : S.Limit → Bool
  /-- `should_end_block_parallel`. -/
  shouldEndBlockParallel : S.Limit → Bool

/-- `num_txns`. -/
def Env.numTxns (env : Env S) : ℕ := env.block.length

/-! ### The delayed fields -/

/-- The first loop over the changes: the updates, and what is left for the second loop. It panics
where a field is created twice, a base does not exist or a change does not apply. -/
def firstPhase (env : Env S) (fields : DelayedFields S) :
    List (S.Identifier × DelayedChange S) →
      DelayedFields S × List (S.Identifier × S.Identifier × S.DelayedApply) →
      Option (DelayedFields S × List (S.Identifier × S.Identifier × S.DelayedApply))
  | [], acc => some acc
  | (id, .create v) :: rest, (updates, second) =>
    match fields id with
    | some _ => none
    | none => firstPhase env fields rest (Function.update updates id (some v), second)
  | (id, .apply a) :: rest, (updates, second) =>
    match env.getApplyBaseId a id with
    | .previous base =>
      match (fields base).bind (env.applyToBase a) with
      | none => none
      | some v => firstPhase env fields rest (Function.update updates id (some v), second)
    | .current base => firstPhase env fields rest (updates, second ++ [(id, base, a)])

/-- The second loop, over the changes whose base is the value the transaction leaves. -/
def secondPhase (env : Env S) (fields : DelayedFields S) :
    List (S.Identifier × S.Identifier × S.DelayedApply) → DelayedFields S →
      Option (DelayedFields S)
  | [], updates => some updates
  | (id, base, a) :: rest, updates =>
    match ((updates base).or (fields base)).bind (env.applyToBase a) with
    | none => none
    | some v => secondPhase env fields rest (Function.update updates id (some v))

/-- The delayed fields after the changes of a transaction. -/
def applyDelayedFieldChanges (env : Env S) (fields : DelayedFields S)
    (changes : List (S.Identifier × DelayedChange S)) : Option (DelayedFields S) :=
  match firstPhase env fields changes (fun _ => none, []) with
  | none => none
  | some (updates, second) =>
    (secondPhase env fields second updates).map fun updates id => (updates id).or (fields id)

/-! ### Errors and results -/

/-- `StatusCode`, as far as the executor names one. -/
inductive StatusCode where
  /-- `DELAYED_MATERIALIZATION_CODE_INVARIANT_ERROR`. -/
  | delayedMaterializationCodeInvariantError
  /-- `UNKNOWN_INVARIANT_VIOLATION_ERROR`. -/
  | unknownInvariantViolationError
  deriving DecidableEq

/-- An output as the executor returns it. -/
inductive Final (S : Sig) where
  /-- `skip_output`. -/
  | skipOutput
  /-- `discard_output`. -/
  | discardOutput (code : StatusCode)
  /-- The output of the VM, with what was incorporated: the writes of the deltas, the writes with
  the delayed fields in them replaced and the groups serialized, and the events. -/
  | materialized (o : Output S) (deltaWrites writes : List (S.Key × S.Value))
      (events : List S.Event)

/-- `BlockExecutionError`. -/
inductive BlockExecutionError (S : Sig) where
  /-- `FatalBlockExecutorError`. -/
  | fatalBlockExecutorError (msg : String)
  /-- `FatalVMError`. -/
  | fatalVmError (e : S.Error)

/-- How sequential execution fails. -/
inductive SequentialError (S : Sig) where
  /-- `ResourceGroupSerializationError`. -/
  | resourceGroupSerializationError
  /-- `ErrorToReturn`. -/
  | errorToReturn (e : BlockExecutionError S)
  /-- A panic. -/
  | panic

/-- `?`, on a `PanicError`. -/
def orFatal {α : Type} : Except String α → Except (SequentialError S) α
  | .ok a => .ok a
  | .error msg => .error (.errorToReturn (.fatalBlockExecutorError msg))

/-- `unwrap()`, or an assertion. -/
def orPanic {α : Type} : Option α → Except (SequentialError S) α
  | some a => .ok a
  | none => .error .panic

/-- Nothing is found wrong. -/
def noError : Option String → Except String Unit
  | none => .ok ()
  | some msg => .error msg

/-! ### An output is applied -/

/-- The places written, in the order of `apply_output_sequential`, with the values of the deltas
that were materialized. -/
def Output.writes (o : Output S) (deltaWrites : List (S.Key × S.Value)) :
    List (Loc S × S.Value) :=
  o.resourceWriteSet.map (fun w => (.data w.1, w.2)) ++
    o.resourceGroupWriteSet.flatMap
      (fun g => g.ops.map (fun w => (.group g.key w.1, w.2)) ++ [(.data g.key, g.metadataOp)]) ++
    (o.aggregatorV1WriteSet ++ deltaWrites).map (fun w => (.data w.1, w.2)) ++
    o.moduleWriteSet.map (fun w => (.modules w.1, w.2))

/-- `materialize_agg_v1`: the deltas applied to what the transaction sees. -/
def materializeAggV1 (env : Env S) (data : Loc S → S.Value) (o : Output S) :
    Option (List (S.Key × S.Value)) :=
  o.aggregatorV1DeltaSet.mapM fun w => (env.applyDelta w.2 (data (.data w.1))).map (w.1, ·)

/-- What is found wrong with a write. -/
def writeError (env : Env S) (data : Loc S → S.Value) : Loc S × S.Value → Option String
  | (.group k t, op) => env.groupOpError (data (.group k t)) op
  | _ => none

/-- Writes applied one after another. -/
def applyWrites (env : Env S) :
    List (Loc S × S.Value) → (Loc S → S.Value) → Except String (Loc S → S.Value)
  | [], data => .ok data
  | w :: writes, data => do
    noError (writeError env data w)
    applyWrites env writes (Function.update data w.1 w.2)

/-- `apply_output_sequential`. -/
def applyOutputSequential (env : Env S) (o : Output S) (deltaWrites : List (S.Key × S.Value))
    (data : Loc S → S.Value) (delayed : DelayedFields S) :
    Except (SequentialError S) ((Loc S → S.Value) × DelayedFields S) := do
  let data ← orFatal (applyWrites env (o.writes deltaWrites) data)
  let delayed ← orPanic (applyDelayedFieldChanges env delayed o.delayedFieldChangeSet)
  .ok (data, delayed)

/-! ### Groups -/

/-- `finalize`, of the second attempt. -/
def finalize (env : Env S) (data : Loc S → S.Value) (k : S.Key) (t : S.Tag) : Option S.Bytes :=
  env.extractRawBytes (data (.group k t))

/-- The operations on the resources of a group, on their bytes. A deletion takes the resource
out. -/
def applyGroupOps (env : Env S) (ops : List (S.Tag × S.Value)) (group : S.Tag → Option S.Bytes) :
    S.Tag → Option S.Bytes :=
  ops.foldl (fun group w => Function.update group w.1 (env.extractRawBytes w.2)) group

/-- `serialization_error`: a group that was read, or one with the operations on it, cannot be
serialized. The identifiers of delayed fields are not exchanged. -/
def serializationError (env : Env S) (data : Loc S → S.Value) (o : Output S) : Bool :=
  o.groupReadsNeedingDelayedFieldExchange.any (fun g => env.bcsFails (finalize env data g.1)) ||
    o.resourceGroupWriteSet.any
      fun g => env.bcsFails (applyGroupOps env g.ops (finalize env data g.key))

/-- `finalize_group`: the resources that are there. -/
def finalizeGroup (env : Env S) (data : Loc S → S.Value) (k : S.Key) : Group S := fun t =>
  if (env.extractRawBytes (data (.group k t))).isSome then some (data (.group k t)) else none

/-- A group to be serialized. -/
structure FinalizedGroup (S : Sig) where
  /-- The key of the group. -/
  key : S.Key
  /-- The operation on its metadata. -/
  metadataOp : S.Value
  /-- Its resources. -/
  group : Group S

/-- `groups_to_finalize!`: the groups written, then those read whose delayed fields are exchanged,
with the operations on their metadata. -/
def groupsToFinalize (env : Env S) (o : Output S) : List (S.Key × S.Value × Bool) :=
  o.resourceGroupWriteSet.map (fun g => (g.key, g.metadataOp, false)) ++
    o.groupReadsNeedingDelayedFieldExchange.map (fun g => (g.1, env.readMetadataOp g.2, true))

/-- The groups with their resources, as `map_finalized_group` passes them on. -/
def finalizeGroups (env : Env S) (group : S.Key → Group S) (o : Output S) :
    Except String (List (FinalizedGroup S)) :=
  (groupsToFinalize env o).mapM fun g => do
    noError (env.finalizedGroupError g.1 (group g.1) g.2.1 g.2.2)
    .ok ⟨g.1, g.2.1, group g.1⟩

/-- `map_id_to_values_in_group_writes`. -/
def mapIdToValuesInGroupWrites (env : Env S) (fields : DelayedFields S)
    (groups : List (FinalizedGroup S)) : Except String (List (FinalizedGroup S)) :=
  groups.mapM fun g => (env.mapIdToValuesInGroup fields g.group).map (⟨g.key, g.metadataOp, ·⟩)

/-- `serialize_groups`. -/
def serializeGroups (env : Env S) (groups : List (FinalizedGroup S)) :
    Option (List (S.Key × S.Value)) :=
  groups.mapM fun g => (env.serializeGroup g.metadataOp g.group).map (g.key, ·)

/-! ### An output is materialized -/

/-- The groups of an output, serialized. -/
def materializeGroups (env : Env S) (data : Loc S → S.Value) (fields : DelayedFields S)
    (o : Output S) : Except (SequentialError S) (List (S.Key × S.Value)) := do
  let groups ← orFatal (finalizeGroups env (finalizeGroup env data) o)
  let groups ← orFatal (mapIdToValuesInGroupWrites env fields groups)
  match serializeGroups env groups with
  | none => .error .resourceGroupSerializationError
  | some serialized => .ok serialized

/-- The rest of an output: its resources and its events, and all of it incorporated. In sequence
`materialize_agg_v1` has put the writes of the deltas into the output and none are passed; an output
and the writes of its deltas are the same either way. -/
def incorporate (env : Env S) (data : S.Key → S.Value) (fields : DelayedFields S) (o : Output S)
    (deltaWrites serialized : List (S.Key × S.Value)) : Except String (Final S) := do
  let resources ← env.resourceWritesToMaterialize o.resourceWriteSet
    o.readsNeedingDelayedFieldExchange data
  let resources ← env.mapIdToValuesInWriteSet fields resources
  let events ← env.mapIdToValuesEvents fields o.events
  noError (env.incorporateError o deltaWrites (resources ++ serialized) events)
  .ok (.materialized o deltaWrites (resources ++ serialized) events)

/-- The dynamic change set materialization of an output. -/
def materializeOutput (env : Env S) (data : Loc S → S.Value) (fields : DelayedFields S)
    (o : Output S) (deltaWrites : List (S.Key × S.Value)) :
    Except (SequentialError S) (Final S) := do
  let serialized ← materializeGroups env data fields o
  orFatal (incorporate env (fun k => data (.data k)) fields o deltaWrites serialized)

/-! ### The loop -/

/-- The state of the loop. -/
structure SeqState (S : Sig) where
  /-- `unsync_map`: the values at the places, what was written over the state before the block. -/
  data : Loc S → S.Value
  /-- The delayed fields in `unsync_map`. -/
  delayed : DelayedFields S
  /-- `counter`: how many identifiers were drawn. -/
  counter : ℕ
  /-- The modules read and written. -/
  modulePaths : S.ModulePaths
  /-- `block_limit_processor`. -/
  limit : S.Limit
  /-- `ret`. -/
  ret : List (Final S)

namespace SeqState

/-- The state before the first transaction. -/
def init (env : Env S) : SeqState S :=
  { data := env.base, delayed := env.baseDelayed, counter := 0, modulePaths := env.newModulePaths,
    limit := env.newLimit, ret := [] }

/-- What the VM is answered. -/
def view (env : Env S) (st : SeqState S) : Request S → Answer S
  | .loc l => .value (some (st.data l))
  | .delayed q => .value (env.observe q st.delayed)
  | .identifier n => .identifier (env.generateId true (st.counter + n))

end SeqState

/-- The modules among the requests. -/
def moduleReadsOf (requests : List (Request S)) : List S.Key :=
  requests.filterMap fun
    | .loc (.modules k) => some k
    | _ => none

/-- How many identifiers the requests have drawn. -/
def drawn : List (Request S) → ℕ
  | [] => 0
  | .identifier n :: requests => max (n + 1) (drawn requests)
  | _ :: requests => drawn requests

/-- A transaction with an output is accounted for. -/
def account (env : Env S) (idx : ℕ) (requests : List (Request S)) (o : Output S)
    (st : SeqState S) : SeqState S :=
  let (conflict, modulePaths) := env.checkAndAppendModuleRwConflict st.modulePaths
    (moduleReadsOf requests) (o.moduleWriteSet.map Prod.fst)
  let limit := if conflict then env.processModuleRwConflict st.limit else st.limit
  { st with
    counter := st.counter + drawn requests
    modulePaths
    limit := env.accumulateFeeStatement limit idx o requests }

/-- What the loop does with an output. The second component says whether the loop goes on with
the next transaction without looking at the limit (`continue`). -/
def commitOutput (env : Env S) (fallback : Bool) (idx : ℕ)
    (reads : List (Request S × Answer S)) (o : Output S) (st : SeqState S) :
    Except (SequentialError S) (SeqState S × Bool) := do
  let st := account env idx (reads.map Prod.fst) o st
  let deltaWrites ← orPanic (materializeAggV1 env st.data o)
  if fallback && serializationError env st.data o then
    .ok ({ st with ret := st.ret ++ [.discardOutput .delayedMaterializationCodeInvariantError] },
      true)
  else
    let (data, delayed) ← applyOutputSequential env o deltaWrites st.data st.delayed
    let output ← materializeOutput env data delayed o deltaWrites
    if env.isIncorrectUse reads then
      .error (.errorToReturn (.fatalBlockExecutorError "Incorrect use in sequential execution"))
    else .ok ({ st with data, delayed, ret := st.ret ++ [output] }, false)

/-- One round of the loop: the state after it, and whether the loop ends here. -/
def executeSequential (env : Env S) (fallback : Bool) (idx : ℕ) (vm : Vm S) (st : SeqState S) :
    Except (SequentialError S) (SeqState S × Bool) :=
  let run := vm.capture (st.view env) []
  match run.2 with
  | .abort e => .error (.errorToReturn (.fatalVmError e))
  | .delayedFieldsCodeInvariantError msg =>
    .error (.errorToReturn (.fatalBlockExecutorError msg))
  | .speculativeExecutionAbortError msg =>
    .error (.errorToReturn (.fatalBlockExecutorError msg))
  | .success o => do
    let (st, goOn) ← commitOutput env fallback idx run.1 o st
    .ok (st, !goOn && (idx < env.numTxns - 1 && env.shouldEndBlockSequential st.limit))
  | .skipRest o => do
    let (st, goOn) ← commitOutput env fallback idx run.1 o st
    .ok (st, !goOn)

/-- The loop over the block, from a transaction on. -/
def sequentialLoop (env : Env S) (fallback : Bool) :
    List (Vm S) → ℕ → SeqState S → Except (SequentialError S) (SeqState S)
  | [], _, st => .ok st
  | vm :: rest, idx, st => do
    let (st, stop) ← executeSequential env fallback idx vm st
    if stop then .ok st else sequentialLoop env fallback rest (idx + 1) st

/-- `execute_transactions_sequential`. The outputs of the transactions that were not run are
filled in. -/
def executeTransactionsSequential (env : Env S) (fallback : Bool) :
    Except (SequentialError S) (List (Final S)) := do
  let st ← sequentialLoop env fallback env.block 0 (SeqState.init env)
  .ok (st.ret ++ List.replicate (env.numTxns - st.ret.length) .skipOutput)

end BlockExecutor

end Aptos

end RelayContracts
