import RelayContracts.Association
import RelayContracts.Slots

/-!
# Processing a Sei block

`ProcessBlock` decodes the transactions of a block, takes those with only prioritized messages out,
executes these, runs the mid-block work, executes the others, and puts each result where its
transaction is in the block. Decoding and the preparation for concurrent execution are done by one
goroutine for each transaction, which writes to a slot of its own.

The three slices with the transactions, their decoded forms and their indices, which the source
keeps in step, are one list of `IndexedTx` here. The order in which goroutines come to an end is a
`Schedule`. What the SDK and its modules do is in `Env`; they pass the state on. A `nil` pointer
and a transaction that could not be decoded are `none`.

`processBlockSpec` says what it is all for: the prioritized transactions are delivered one after
another, then the others, and the results are in the order of the block. `processBlock_eq` is the
refinement. Concurrent execution (OCC) is taken to be equivalent to delivery in order
(`OccSerial`), which is what the SDK promises.

## Main definitions

* `partitionPrioritizedTxs`, `processBlockSynchronous`, `processTxsWithOcc`,
  `executeTxsConcurrently`, `processBlock` — the functions of the source
* `processBlockSpec` — what `processBlock` is for

## Main results

* `processBlock_eq` — every schedule, with or without OCC, does what the specification says
* `processBlock_own_results` — each slot of the results is filled by its own transaction
-/

namespace RelayContracts

namespace Sei

namespace BlockProcessing

open Slots

/-- `[]byte`. -/
abbrev Bytes := List UInt8

/-- The messages that are told apart. -/
inductive Msg where
  /-- `oracletypes.MsgAggregateExchangeRateVote`. -/
  | aggregateExchangeRateVote
  /-- `dexmoduletypes.MsgRegisterContract`. -/
  | registerContract
  /-- `dexmoduletypes.MsgUnregisterContract`. -/
  | unregisterContract
  /-- `dexmoduletypes.MsgUnsuspendContract`. -/
  | unsuspendContract
  /-- Any other message. -/
  | other
  deriving DecidableEq, Repr

/-- An event of the block. -/
structure Event where
  /-- `Type`. -/
  kind : String
  /-- `Attributes`: keys and values. -/
  attributes : List (Bytes × Bytes)
  deriving DecidableEq, Repr

/-- `abci.ResponseDeliverTx`. -/
structure ResponseDeliverTx where
  /-- `Code`. -/
  code : UInt32
  /-- `Data`. -/
  data : Bytes
  /-- `Log`. -/
  log : String
  /-- `Info`. -/
  info : String
  /-- `GasWanted`. -/
  gasWanted : Int64
  /-- `GasUsed`. -/
  gasUsed : Int64
  /-- `Events`. -/
  events : List Event
  /-- `Codespace`. -/
  codespace : String
  /-- `EvmTxInfo`. -/
  evmTxInfo : Option Bytes
  deriving DecidableEq

/-- `abci.ExecTxResult`. -/
structure ExecTxResult where
  /-- `Code`. -/
  code : UInt32
  /-- `Data`. -/
  data : Bytes
  /-- `Log`. -/
  log : String
  /-- `Info`. -/
  info : String
  /-- `GasWanted`. -/
  gasWanted : Int64
  /-- `GasUsed`. -/
  gasUsed : Int64
  /-- `Events`. -/
  events : List Event
  /-- `Codespace`. -/
  codespace : String
  /-- `EvmTxInfo`. -/
  evmTxInfo : Option Bytes
  deriving DecidableEq

/-- The result that is made of a response. -/
def ResponseDeliverTx.execTxResult (r : ResponseDeliverTx) : ExecTxResult :=
  { code := r.code, data := r.data, log := r.log, info := r.info, gasWanted := r.gasWanted,
    gasUsed := r.gasUsed, events := r.events, codespace := r.codespace, evmTxInfo := r.evmTxInfo }

/-- `sdk.DeliverTxEntry`. -/
structure DeliverTxEntry (Tx W : Type) where
  /-- `Request`. -/
  tx : Bytes
  /-- `SdkTx`. -/
  sdkTx : Option Tx
  /-- `Checksum`. -/
  checksum : Bytes
  /-- `AbsoluteIndex`. -/
  absoluteIndex : ℕ
  /-- `EstimatedWritesets`. -/
  estimatedWritesets : Option W

/-- What `ProcessBlock` reads of a request. -/
structure BlockProcessRequest where
  /-- `Hash`. -/
  hash : Bytes
  /-- `Height`. -/
  height : Int64
  /-- The transactions. -/
  txs : List Bytes
  /-- What goes into the request to begin the block: misbehaviour, time, the last commit. -/
  beginInfo : Bytes
  deriving DecidableEq

/-- `abci.ValidatorUpdate`. -/
structure ValidatorUpdate where
  /-- `PubKey`. -/
  pubKey : Bytes
  /-- `Power`. -/
  power : Int64
  deriving DecidableEq

/-- The limits of a block. -/
structure BlockParams where
  /-- `MaxBytes`. -/
  maxBytes : Int64
  /-- `MaxGas`. -/
  maxGas : Int64
  deriving DecidableEq

/-- The limits of evidence. -/
structure EvidenceParams where
  /-- `MaxAgeNumBlocks`. -/
  maxAgeNumBlocks : Int64
  /-- `MaxAgeDuration`. -/
  maxAgeDuration : Int64
  /-- `MaxBytes`. -/
  maxBytes : Int64
  deriving DecidableEq

/-- The consensus parameters. Each part is a pointer. -/
structure ConsensusParams where
  /-- `Block`. -/
  block : Option BlockParams
  /-- `Evidence`. -/
  evidence : Option EvidenceParams
  /-- `Validator`, with its `PubKeyTypes`. -/
  validator : Option (List String)
  /-- `Version`, with its `AppVersion`. -/
  version : Option UInt64
  deriving DecidableEq

/-- `abci.ResponseEndBlock`. -/
structure ResponseEndBlock where
  /-- `Events`. -/
  events : List Event
  /-- `ValidatorUpdates`. -/
  validatorUpdates : List ValidatorUpdate
  /-- `ConsensusParamUpdates`. -/
  consensusParamUpdates : Option ConsensusParams
  deriving DecidableEq

/-- What the application is built on. -/
structure Env (σ Tx W : Type) where
  /-- `OccEnabled`. -/
  occEnabled : Bool
  /-- `txDecoder`. -/
  txDecoder : Bytes → Option Tx
  /-- `IsEVMMessage`. -/
  isEvmMessage : Tx → Bool
  /-- Whether `Preprocess` of the EVM message succeeds. -/
  preprocess : σ → Tx → Bool
  /-- `GetMsgs`. -/
  getMsgs : Tx → List Msg
  /-- `sha256.Sum256`. -/
  sum256 : Bytes → Bytes
  /-- `GenerateEstimatedWritesets`. -/
  generateEstimatedWritesets : σ → ℕ → Option Tx → Option W
  /-- `DeliverTx`, with the index of the transaction in the context. -/
  deliverTx : σ → ℕ → Bytes → Option Tx → Bytes → ResponseDeliverTx × σ
  /-- `DeliverTxBatch`. -/
  deliverTxBatch : σ → List (Option (DeliverTxEntry Tx W)) → List ResponseDeliverTx × σ
  /-- `BeginBlock`. -/
  beginBlock : σ → BlockProcessRequest → List Event × σ
  /-- `WriteDeferredBalances`. -/
  writeDeferredBalances : σ → List Event × σ
  /-- `MidBlock`. -/
  midBlock : σ → Int64 → List Event × σ
  /-- `SetTxResults`. -/
  setTxResults : σ → List (Option ExecTxResult) → σ
  /-- `EndBlock`. -/
  endBlock : σ → Int64 → ResponseEndBlock × σ

variable {σ Tx W : Type} {env : Env σ Tx W}

/-- The orders in which the goroutines of the three loops come to an end, by their number. -/
structure Schedule where
  /-- In `DecodeTransactionsConcurrently`. -/
  decode : ℕ → List ℕ
  /-- In `ProcessTXsWithOCC`, for the prioritized transactions. -/
  prioritized : ℕ → List ℕ
  /-- In `ProcessTXsWithOCC`, for the others. -/
  others : ℕ → List ℕ
  /-- Each goroutine comes to its end once. -/
  decode_perm : ∀ n, (decode n).Perm (List.range n)
  /-- Each goroutine comes to its end once. -/
  prioritized_perm : ∀ n, (prioritized n).Perm (List.range n)
  /-- Each goroutine comes to its end once. -/
  others_perm : ∀ n, (others n).Perm (List.range n)

/-- What the goroutines of a loop over a slice write, in the order in which they come to an
end. -/
def goroutines {α β : Type} (order : List ℕ) (xs : List α) (f : ℕ → α → β) : List (Option β) :=
  writeAll (order.map fun i => (i, xs[i]?.map (f i))) (List.replicate xs.length none)

/-! ### Decoding -/

/-- What one goroutine of `DecodeTransactionsConcurrently` writes. -/
def decodeTransaction (env : Env σ Tx W) (st : σ) (tx : Bytes) : Option Tx :=
  match env.txDecoder tx with
  | none => none
  | some typedTx =>
    if env.isEvmMessage typedTx && !env.preprocess st typedTx then none else some typedTx

/-- `DecodeTransactionsConcurrently`. -/
def decodeTransactionsConcurrently (env : Env σ Tx W) (st : σ) (order : List ℕ)
    (txs : List Bytes) : List (Option Tx) :=
  (goroutines order txs fun _ tx => decodeTransaction env st tx).map Option.join

/-! ### Prioritized transactions -/

/-- A transaction with its decoded form and its index in the block. -/
structure IndexedTx (Tx : Type) where
  /-- The index in the block. -/
  index : ℕ
  /-- The transaction. -/
  tx : Bytes
  /-- The decoded transaction. -/
  typedTx : Option Tx

/-- The transactions of a block with their decoded forms and indices. -/
def indexedTxs (txs : List Bytes) (typedTxs : List (Option Tx)) : List (IndexedTx Tx) :=
  (txs.zip typedTxs).zipIdx.map fun p => ⟨p.2, p.1.1, p.1.2⟩

/-- Whether a message is prioritized. -/
def Msg.isPrioritized : Msg → Bool
  | .aggregateExchangeRateVote => true
  | .registerContract => true
  | .unregisterContract => true
  | .unsuspendContract => true
  | .other => false

/-- `msgLoop`. -/
def msgLoop : Bool → List Msg → Bool
  | prioritized, [] => prioritized
  | _, msg :: msgs => if msg.isPrioritized then msgLoop true msgs else false

/-- Whether a transaction is put with the prioritized ones. -/
def isPrioritized (env : Env σ Tx W) (t : IndexedTx Tx) : Bool :=
  match t.typedTx with
  | none => false
  | some typedTx => msgLoop false (env.getMsgs typedTx)

/-- `PartitionPrioritizedTxs`, from two slices on. -/
def partitionLoop (env : Env σ Tx W) :
    List (IndexedTx Tx) → List (IndexedTx Tx) × List (IndexedTx Tx) →
      List (IndexedTx Tx) × List (IndexedTx Tx)
  | [], acc => acc
  | t :: ts, (prioritizedTxs, otherTxs) =>
    if isPrioritized env t then partitionLoop env ts (prioritizedTxs ++ [t], otherTxs)
    else partitionLoop env ts (prioritizedTxs, otherTxs ++ [t])

/-- `PartitionPrioritizedTxs`. -/
def partitionPrioritizedTxs (env : Env σ Tx W) (txs : List (IndexedTx Tx)) :
    List (IndexedTx Tx) × List (IndexedTx Tx) :=
  partitionLoop env txs ([], [])

/-! ### Execution -/

/-- `DeliverTxWithResult`. -/
def deliverTxWithResult (env : Env σ Tx W) (st : σ) (t : IndexedTx Tx) : ExecTxResult × σ :=
  let (resp, st) := env.deliverTx st t.index t.tx t.typedTx (env.sum256 t.tx)
  (resp.execTxResult, st)

/-- `ProcessBlockSynchronous`. -/
def processBlockSynchronous (env : Env σ Tx W) : σ → List (IndexedTx Tx) → List ExecTxResult × σ
  | st, [] => ([], st)
  | st, t :: ts =>
    let (res, st) := deliverTxWithResult env st t
    let (txResults, st) := processBlockSynchronous env st ts
    (res :: txResults, st)

/-- The entry that one goroutine of `ProcessTXsWithOCC` makes. -/
def deliverTxEntry (env : Env σ Tx W) (st : σ) (txIndex : ℕ) (t : IndexedTx Tx) :
    DeliverTxEntry Tx W :=
  { tx := t.tx, sdkTx := t.typedTx, checksum := env.sum256 t.tx, absoluteIndex := t.index,
    estimatedWritesets := env.generateEstimatedWritesets st txIndex t.typedTx }

/-- `ProcessTXsWithOCC`. -/
def processTxsWithOcc (env : Env σ Tx W) (st : σ) (order : List ℕ) (txs : List (IndexedTx Tx)) :
    List ExecTxResult × σ :=
  let (results, st) := env.deliverTxBatch st (goroutines order txs (deliverTxEntry env st))
  (results.map ResponseDeliverTx.execTxResult, st)

/-- `ExecuteTxsConcurrently`. -/
def executeTxsConcurrently (env : Env σ Tx W) (st : σ) (order : List ℕ)
    (txs : List (IndexedTx Tx)) : List ExecTxResult × σ :=
  if env.occEnabled then processTxsWithOcc env st order txs else processBlockSynchronous env st txs

/-! ### The block -/

/-- The loop that puts results where their transactions are. It panics where a result is
missing. -/
def scatter (indices : List ℕ) (results : List ExecTxResult) (slots : List (Option ExecTxResult)) :
    Option (List (Option ExecTxResult)) :=
  if results.length < indices.length then none
  else some (writeAll (indices.zip (results.map some)) slots)

/-- What `ProcessBlock` returns. -/
structure BlockResponse where
  /-- The events. -/
  events : List Event
  /-- The results of the transactions. -/
  txResults : List (Option ExecTxResult)
  /-- The response to the end of the block. -/
  endBlockResp : ResponseEndBlock
  deriving DecidableEq

/-- `ProcessBlock`. -/
def processBlock (env : Env σ Tx W) (schedule : Schedule) (st : σ) (req : BlockProcessRequest) :
    Option (BlockResponse × σ) := do
  let (beginEvents, st) := env.beginBlock st req
  let txResults := List.replicate req.txs.length none
  let typedTxs := decodeTransactionsConcurrently env st (schedule.decode req.txs.length) req.txs
  let (prioritizedTxs, otherTxs) := partitionPrioritizedTxs env (indexedTxs req.txs typedTxs)
  let (prioritizedResults, st) :=
    executeTxsConcurrently env st (schedule.prioritized prioritizedTxs.length) prioritizedTxs
  let txResults ← scatter (prioritizedTxs.map IndexedTx.index) prioritizedResults txResults
  let (deferredWriteEvents, st) := env.writeDeferredBalances st
  let (midBlockEvents, st) := env.midBlock st req.height
  let (otherResults, st) :=
    executeTxsConcurrently env st (schedule.others otherTxs.length) otherTxs
  let txResults ← scatter (otherTxs.map IndexedTx.index) otherResults txResults
  let st := env.setTxResults st txResults
  let (lazyWriteEvents, st) := env.writeDeferredBalances st
  let (endBlockResp, st) := env.endBlock st req.height
  return ({ events := beginEvents ++ deferredWriteEvents ++ midBlockEvents ++ lazyWriteEvents ++
              endBlockResp.events
            txResults, endBlockResp }, st)

/-! ### What it is for -/

/-- Transactions delivered one after another: the result of each with its index. -/
def deliverAll (env : Env σ Tx W) : σ → List (IndexedTx Tx) → List (ℕ × ExecTxResult) × σ
  | st, [] => ([], st)
  | st, t :: ts =>
    let (res, st) := deliverTxWithResult env st t
    let (log, st) := deliverAll env st ts
    ((t.index, res) :: log, st)

/-- **The specification of `processBlock`.** The prioritized transactions are delivered one after
another, then the others, and the results are in the order of the block. -/
def processBlockSpec (env : Env σ Tx W) (st : σ) (req : BlockProcessRequest) :
    BlockResponse × σ :=
  let (beginEvents, st) := env.beginBlock st req
  let txs := indexedTxs req.txs (req.txs.map (decodeTransaction env st))
  let (prioritized, st) := deliverAll env st (txs.filter (isPrioritized env))
  let (deferredWriteEvents, st) := env.writeDeferredBalances st
  let (midBlockEvents, st) := env.midBlock st req.height
  let (others, st) := deliverAll env st (txs.filter fun t => !isPrioritized env t)
  let txResults := (List.range req.txs.length).map fun i => (prioritized ++ others).lookup i
  let st := env.setTxResults st txResults
  let (lazyWriteEvents, st) := env.writeDeferredBalances st
  let (endBlockResp, st) := env.endBlock st req.height
  ({ events := beginEvents ++ deferredWriteEvents ++ midBlockEvents ++ lazyWriteEvents ++
       endBlockResp.events
     txResults, endBlockResp }, st)

/-- The entries delivered one after another. -/
def deliverEntries (env : Env σ Tx W) :
    σ → List (DeliverTxEntry Tx W) → List ResponseDeliverTx × σ
  | st, [] => ([], st)
  | st, e :: es =>
    let (resp, st) := env.deliverTx st e.absoluteIndex e.tx e.sdkTx e.checksum
    let (resps, st) := deliverEntries env st es
    (resp :: resps, st)

/-- Concurrent execution of a batch is equivalent to delivering its entries in order. -/
def OccSerial (env : Env σ Tx W) : Prop :=
  ∀ st entries, env.deliverTxBatch st (entries.map some) = deliverEntries env st entries

/-! ### Goroutines -/

/-- Whatever the order in which they come to an end, every goroutine has written its slot. -/
theorem goroutines_eq {α β : Type} {order : List ℕ} {xs : List α} (f : ℕ → α → β)
    (h : order.Perm (List.range xs.length)) :
    goroutines order xs f = (xs.mapIdx f).map some := by
  rw [goroutines, writeAll_eq_map (fun i => xs[i]?.map (f i)) h List.length_replicate]
  refine List.ext_getElem? fun i => ?_
  by_cases hi : i < xs.length
  · simp [hi]
  · simp [Nat.not_lt.mp hi]

theorem decodeTransactionsConcurrently_eq (env : Env σ Tx W) (st : σ) {order : List ℕ}
    {txs : List Bytes} (h : order.Perm (List.range txs.length)) :
    decodeTransactionsConcurrently env st order txs = txs.map (decodeTransaction env st) := by
  rw [decodeTransactionsConcurrently, goroutines_eq _ h, List.map_map]
  refine List.ext_getElem? fun i => ?_
  simp
  rfl

theorem partitionLoop_eq (env : Env σ Tx W) (ts ps os : List (IndexedTx Tx)) :
    partitionLoop env ts (ps, os) =
      (ps ++ ts.filter (isPrioritized env), os ++ ts.filter fun t => !isPrioritized env t) := by
  induction ts generalizing ps os with
  | nil => simp [partitionLoop]
  | cons t ts ih =>
    rw [partitionLoop]
    split
    · next ht => simp [ih, ht]
    · next ht => simp [ih, ht]

theorem partitionPrioritizedTxs_eq (env : Env σ Tx W) (ts : List (IndexedTx Tx)) :
    partitionPrioritizedTxs env ts =
      (ts.filter (isPrioritized env), ts.filter fun t => !isPrioritized env t) := by
  rw [partitionPrioritizedTxs, partitionLoop_eq]
  rfl

/-! ### Delivery -/

theorem deliverAll_index (env : Env σ Tx W) (st : σ) (ts : List (IndexedTx Tx)) :
    (deliverAll env st ts).1.map Prod.fst = ts.map IndexedTx.index := by
  induction ts generalizing st with
  | nil => rfl
  | cons t ts ih => simp [deliverAll, ih]

theorem processBlockSynchronous_eq (env : Env σ Tx W) (st : σ) (ts : List (IndexedTx Tx)) :
    processBlockSynchronous env st ts =
      ((deliverAll env st ts).1.map Prod.snd, (deliverAll env st ts).2) := by
  induction ts generalizing st with
  | nil => rfl
  | cons t ts ih => simp [processBlockSynchronous, deliverAll, ih]

/-- Entries made for transactions are delivered as the transactions are. -/
theorem deliverEntries_eq (env : Env σ Tx W) (st : σ) (ts : List (IndexedTx Tx))
    (f : ℕ → IndexedTx Tx → DeliverTxEntry Tx W)
    (hf : ∀ i t, (f i t).absoluteIndex = t.index ∧ (f i t).tx = t.tx ∧ (f i t).sdkTx = t.typedTx ∧
      (f i t).checksum = env.sum256 t.tx) :
    ((deliverEntries env st (ts.mapIdx f)).1.map ResponseDeliverTx.execTxResult,
      (deliverEntries env st (ts.mapIdx f)).2) =
      ((deliverAll env st ts).1.map Prod.snd, (deliverAll env st ts).2) := by
  induction ts generalizing st f with
  | nil => rfl
  | cons t ts ih =>
    obtain ⟨hindex, htx, htyped, hsum⟩ := hf 0 t
    have htail := ih (env.deliverTx st t.index t.tx t.typedTx (env.sum256 t.tx)).2
      (fun i => f (i + 1)) fun i => hf (i + 1)
    rw [Prod.mk.injEq] at htail
    rw [List.mapIdx_cons]
    simp only [deliverEntries, deliverAll, deliverTxWithResult, hindex, htx, htyped, hsum,
      List.map_cons, htail.1, htail.2]

/-- **With or without OCC**, in whichever order the entries are made, the transactions are
delivered one after another. -/
theorem executeTxsConcurrently_eq (hocc : env.occEnabled = false ∨ OccSerial env) (st : σ)
    {order : List ℕ} {ts : List (IndexedTx Tx)} (h : order.Perm (List.range ts.length)) :
    executeTxsConcurrently env st order ts =
      ((deliverAll env st ts).1.map Prod.snd, (deliverAll env st ts).2) := by
  rw [executeTxsConcurrently]
  cases henabled : env.occEnabled with
  | false => exact processBlockSynchronous_eq env st ts
  | true =>
    have hserial : OccSerial env := hocc.resolve_left (by simp [henabled])
    rw [if_pos rfl, processTxsWithOcc, goroutines_eq _ h, hserial]
    exact deliverEntries_eq env st ts _ fun _ _ => ⟨rfl, rfl, rfl, rfl⟩

/-! ### Results -/

/-- The loop that puts results where their transactions are, after these were delivered. -/
theorem scatter_deliverAll (env : Env σ Tx W) (st : σ) (ts : List (IndexedTx Tx))
    (slots : List (Option ExecTxResult)) :
    scatter (ts.map IndexedTx.index) ((deliverAll env st ts).1.map Prod.snd) slots =
      some (writeAll ((deliverAll env st ts).1.map fun p => (p.1, some p.2)) slots) := by
  rw [← deliverAll_index env st ts, scatter, if_neg (by simp), List.map_map, List.zip_map']
  rfl

/-- A log with distinct indices, written to empty slots. -/
theorem writeAll_log {log : List (ℕ × ExecTxResult)} (hnodup : (log.map Prod.fst).Nodup) (n : ℕ) :
    writeAll (log.map fun p => (p.1, some p.2)) (List.replicate n none) =
      (List.range n).map fun i => log.lookup i := by
  have hkeys : (log.map fun p => (p.1, some p.2)).map Prod.fst = log.map Prod.fst := by
    rw [List.map_map]
    rfl
  refine List.ext_getElem? fun i => ?_
  by_cases hi : i < n
  · have hslot : ((List.range n).map fun i => log.lookup i)[i]? = some (log.lookup i) := by
      simp [hi]
    rw [hslot]
    cases hl : log.lookup i with
    | some r =>
      have hmem : (i, some r) ∈ log.map fun p => (p.1, some p.2) :=
        List.mem_map.mpr ⟨(i, r), Association.mem_of_lookup hl, rfl⟩
      exact getElem?_writeAll_of_mem (hkeys.symm ▸ hnodup) hmem (by simpa using hi)
    | none =>
      have hnot : i ∉ (log.map fun p => (p.1, some p.2)).map Prod.fst := by
        rw [hkeys]
        intro hmem
        obtain ⟨⟨j, r⟩, hp, rfl⟩ := List.mem_map.mp hmem
        rw [Association.lookup_of_mem hnodup hp] at hl
        cases hl
      rw [getElem?_writeAll_of_not_mem hnot]
      simp [hi]
  · rw [List.getElem?_eq_none (by simp; omega), List.getElem?_eq_none (by simp; omega)]

theorem indexedTxs_index {txs : List Bytes} {typedTxs : List (Option Tx)}
    (h : typedTxs.length = txs.length) :
    (indexedTxs txs typedTxs).map IndexedTx.index = List.range txs.length := by
  refine List.ext_getElem? fun i => ?_
  by_cases hi : i < txs.length
  · simp [indexedTxs, hi, h]
  · simp [indexedTxs, Nat.not_lt.mp hi, h]

/-- The indices of the prioritized transactions and of the others are those of the block. -/
theorem index_perm (env : Env σ Tx W) {txs : List Bytes} (f : Bytes → Option Tx) :
    (((indexedTxs txs (txs.map f)).filter (isPrioritized env)).map IndexedTx.index ++
      ((indexedTxs txs (txs.map f)).filter fun t => !isPrioritized env t).map
        IndexedTx.index).Perm (List.range txs.length) := by
  rw [← List.map_append, ← indexedTxs_index (List.length_map f)]
  exact (List.filter_append_perm _ _).map _

/-- The results of the specification are what the two loops write. -/
theorem results_eq (env : Env σ Tx W) (st st' : σ) {txs : List Bytes} (f : Bytes → Option Tx) :
    writeAll ((deliverAll env st' ((indexedTxs txs (txs.map f)).filter fun t =>
        !isPrioritized env t)).1.map fun p => (p.1, some p.2))
      (writeAll ((deliverAll env st ((indexedTxs txs (txs.map f)).filter
        (isPrioritized env))).1.map fun p => (p.1, some p.2)) (List.replicate txs.length none)) =
      (List.range txs.length).map fun i => ((deliverAll env st ((indexedTxs txs (txs.map f)).filter
        (isPrioritized env))).1 ++ (deliverAll env st' ((indexedTxs txs (txs.map f)).filter fun t =>
        !isPrioritized env t)).1).lookup i := by
  rw [writeAll_append, ← List.map_append]
  refine writeAll_log ?_ _
  rw [List.map_append, deliverAll_index, deliverAll_index]
  exact (index_perm env f).nodup_iff.mpr List.nodup_range

/-- **`processBlock` does what its specification says**, whatever the order in which goroutines
come to an end, and with or without OCC. In particular it does not panic. -/
theorem processBlock_eq (hocc : env.occEnabled = false ∨ OccSerial env) (schedule : Schedule)
    (st : σ) (req : BlockProcessRequest) :
    processBlock env schedule st req = some (processBlockSpec env st req) := by
  simp only [processBlock, processBlockSpec, decodeTransactionsConcurrently_eq env _
    (schedule.decode_perm _), partitionPrioritizedTxs_eq,
    executeTxsConcurrently_eq hocc _ (schedule.prioritized_perm _),
    executeTxsConcurrently_eq hocc _ (schedule.others_perm _), scatter_deliverAll,
    Option.bind_eq_bind, Option.bind_some, results_eq]
  rfl

/-! ### Which transaction fills a slot -/

/-- A transaction of a block, with its index and its decoded form, which is made when the block has
begun. -/
def blockTx (env : Env σ Tx W) (st : σ) (req : BlockProcessRequest) (i : ℕ) (tx : Bytes) :
    IndexedTx Tx :=
  ⟨i, tx, decodeTransaction env (env.beginBlock st req).2 tx⟩

/-- The state after those of `ts` that are before `t` in the block. -/
def stateBefore (env : Env σ Tx W) (st : σ) (ts : List (IndexedTx Tx)) (t : IndexedTx Tx) : σ :=
  (deliverAll env st (ts.filter fun u => u.index < t.index)).2

/-- The state that a transaction of a block meets: a prioritized one that after the prioritized
ones before it, any other one that after all prioritized ones, the mid-block work and the others
before it. -/
def stateMet (env : Env σ Tx W) (st : σ) (req : BlockProcessRequest) (t : IndexedTx Tx) : σ :=
  let (_, st) := env.beginBlock st req
  let txs := indexedTxs req.txs (req.txs.map (decodeTransaction env st))
  if isPrioritized env t then stateBefore env st (txs.filter (isPrioritized env)) t
  else
    let (_, st) := deliverAll env st (txs.filter (isPrioritized env))
    let (_, st) := env.writeDeferredBalances st
    let (_, st) := env.midBlock st req.height
    stateBefore env st (txs.filter fun t => !isPrioritized env t) t

theorem pairwise_indexedTxs {txs : List Bytes} {typedTxs : List (Option Tx)}
    (h : typedTxs.length = txs.length) :
    (indexedTxs txs typedTxs).Pairwise fun t u => t.index < u.index := by
  refine List.pairwise_map.mp ?_
  rw [indexedTxs_index h]
  exact List.pairwise_lt_range

theorem mem_indexedTxs {txs : List Bytes} {f : Bytes → Option Tx} {i : ℕ} {tx : Bytes}
    (h : txs[i]? = some tx) : ⟨i, tx, f tx⟩ ∈ indexedTxs txs (txs.map f) := by
  refine List.mem_map.mpr ⟨((tx, f tx), i), ?_, rfl⟩
  refine List.mem_zipIdx_iff_getElem?.mpr (List.getElem?_zip_eq_some.mpr ⟨h, ?_⟩)
  rw [List.getElem?_map, h]
  rfl

/-- The step lemma of delivery: a transaction leaves its result, from the state it meets. -/
theorem mem_deliverAll {st : σ} {ts : List (IndexedTx Tx)}
    (hts : ts.Pairwise fun t u => t.index < u.index) {t : IndexedTx Tx} (ht : t ∈ ts) :
    (t.index, (deliverTxWithResult env (stateBefore env st ts t) t).1) ∈
      (deliverAll env st ts).1 := by
  induction ts generalizing st with
  | nil => cases ht
  | cons u ts ih =>
    obtain ⟨hu, hts⟩ := List.pairwise_cons.mp hts
    rcases List.mem_cons.mp ht with rfl | ht
    · have hfirst : stateBefore env st (t :: ts) t = st := by
        have hnone : (t :: ts).filter (fun u => u.index < t.index) = [] := by
          refine List.filter_eq_nil_iff.mpr fun v hv => ?_
          rcases List.mem_cons.mp hv with rfl | hv
          · simp
          · simpa using Nat.le_of_lt (hu v hv)
        rw [stateBefore, hnone]
        rfl
      rw [hfirst]
      exact List.mem_cons_self
    · have hnext : stateBefore env st (u :: ts) t =
          stateBefore env (deliverTxWithResult env st u).2 ts t := by
        rw [stateBefore, List.filter_cons_of_pos (by simpa using hu t ht)]
        rfl
      rw [hnext]
      exact List.mem_cons_of_mem _ (ih hts ht)

/-- The results of the specification are those of a log of deliveries, one for each transaction of
the block, which is delivered in the state it meets. -/
theorem processBlockSpec_txResults (env : Env σ Tx W) (st : σ) (req : BlockProcessRequest) :
    ∃ log : List (ℕ × ExecTxResult), (log.map Prod.fst).Perm (List.range req.txs.length) ∧
      (processBlockSpec env st req).1.txResults =
        ((List.range req.txs.length).map fun i => log.lookup i) ∧
      ∀ i tx, req.txs[i]? = some tx →
        (i, (deliverTxWithResult env (stateMet env st req (blockTx env st req i tx))
          (blockTx env st req i tx)).1) ∈ log := by
  refine ⟨_, ?_, rfl, fun i tx htx => ?_⟩
  · rw [List.map_append, deliverAll_index, deliverAll_index]
    exact index_perm env _
  · have hmem : blockTx env st req i tx ∈ indexedTxs req.txs
        (req.txs.map (decodeTransaction env (env.beginBlock st req).2)) := mem_indexedTxs htx
    have hlen : (req.txs.map (decodeTransaction env (env.beginBlock st req).2)).length =
        req.txs.length := List.length_map _
    have hsorted := pairwise_indexedTxs hlen
    cases hp : isPrioritized env (blockTx env st req i tx) with
    | true =>
      rw [stateMet, hp]
      exact List.mem_append_left _
        (mem_deliverAll (hsorted.filter _) (List.mem_filter.mpr ⟨hmem, hp⟩))
    | false =>
      rw [stateMet, hp]
      exact List.mem_append_right _
        (mem_deliverAll (hsorted.filter _) (List.mem_filter.mpr ⟨hmem, by rw [hp]; rfl⟩))

/-! ### With and without OCC -/

theorem deliverAll_occEnabled (env : Env σ Tx W) (occ : Bool) (st : σ)
    (ts : List (IndexedTx Tx)) :
    deliverAll { env with occEnabled := occ } st ts = deliverAll env st ts := by
  induction ts generalizing st with
  | nil => rfl
  | cons t ts ih => simp only [deliverAll, deliverTxWithResult, ih]

theorem deliverEntries_occEnabled (env : Env σ Tx W) (occ : Bool) (st : σ)
    (es : List (DeliverTxEntry Tx W)) :
    deliverEntries { env with occEnabled := occ } st es = deliverEntries env st es := by
  induction es generalizing st with
  | nil => rfl
  | cons e es ih => simp only [deliverEntries, ih]

/-- Whether OCC is enabled makes no difference to the specification. -/
theorem processBlockSpec_occEnabled (env : Env σ Tx W) (occ : Bool) (st : σ)
    (req : BlockProcessRequest) :
    processBlockSpec { env with occEnabled := occ } st req = processBlockSpec env st req := by
  simp only [processBlockSpec, deliverAll_occEnabled]
  rfl

theorem OccSerial.occEnabled (h : OccSerial env) (occ : Bool) :
    OccSerial { env with occEnabled := occ } := by
  intro st entries
  rw [deliverEntries_occEnabled]
  exact h st entries

/-- **Each slot is filled by its own transaction.** Whatever the order in which goroutines come to
an end, `processBlock` returns the same response and state, and where OCC is serial, it does so with
and without OCC. There is a result for every transaction of the block, and the result at an index is
what `DeliverTx` returned for the transaction that has this index, decoded, with this index in the
context: in the state after the prioritized transactions before it, if it is prioritized, and
otherwise after all prioritized transactions, the mid-block work and the others before it. -/
theorem processBlock_own_results (hocc : env.occEnabled = false ∨ OccSerial env) (st : σ)
    (req : BlockProcessRequest) :
    ∃ resp st', (∀ schedule, processBlock env schedule st req = some (resp, st')) ∧
      (OccSerial env → ∀ occ schedule,
        processBlock { env with occEnabled := occ } schedule st req = some (resp, st')) ∧
      resp.txResults.length = req.txs.length ∧
      ∀ i tx, req.txs[i]? = some tx → resp.txResults[i]? =
        some (some (deliverTxWithResult env (stateMet env st req (blockTx env st req i tx))
          (blockTx env st req i tx)).1) := by
  refine ⟨(processBlockSpec env st req).1, (processBlockSpec env st req).2,
    fun schedule => processBlock_eq hocc schedule st req, fun hserial occ schedule => ?_, ?_⟩
  · rw [processBlock_eq (.inr (hserial.occEnabled occ)), processBlockSpec_occEnabled]
  · obtain ⟨log, hperm, hresults, hlog⟩ := processBlockSpec_txResults env st req
    rw [hresults]
    refine ⟨by simp, fun i tx htx => ?_⟩
    have hi : i < req.txs.length := (List.getElem?_eq_some_iff.mp htx).1
    have hnodup := hperm.nodup_iff.mpr List.nodup_range
    simp [hi, Association.lookup_of_mem hnodup (hlog i tx htx)]

/-- A response that says how many transactions were delivered before. -/
def countingResponse (delivered : ℕ) (tx : Bytes) : ResponseDeliverTx :=
  ⟨UInt32.ofNat delivered, tx, "", "", 0, 0, [], "", none⟩

/-- A batch with such responses. -/
def countingBatch : ℕ → List (Option (DeliverTxEntry Bytes Unit)) → List ResponseDeliverTx × ℕ
  | delivered, [] => ([], delivered)
  | delivered, none :: entries => countingBatch delivered entries
  | delivered, some entry :: entries =>
    let (responses, st) := countingBatch (delivered + 1) entries
    (countingResponse delivered entry.tx :: responses, st)

/-- An application whose state is the number of delivered transactions, with prioritized
transactions and others. -/
def countingApp : Env ℕ Bytes Unit where
  occEnabled := true
  txDecoder := some
  isEvmMessage := fun _ => false
  preprocess := fun _ _ => true
  getMsgs := fun tx => tx.map fun b => if b = 0 then .registerContract else .other
  sum256 := id
  generateEstimatedWritesets := fun _ _ _ => none
  deliverTx := fun st _ tx _ _ => (countingResponse st tx, st + 1)
  deliverTxBatch := countingBatch
  beginBlock := fun st _ => ([], st)
  writeDeferredBalances := fun st => ([], st)
  midBlock := fun st _ => ([], st)
  setTxResults := fun st _ => st
  endBlock := fun st _ => (⟨[], [], none⟩, st)

theorem occSerial_countingApp : OccSerial countingApp := by
  intro st entries
  induction entries generalizing st with
  | nil => rfl
  | cons entry entries ih =>
    have ih : countingBatch (st + 1) (entries.map some) = _ := ih (st + 1)
    show countingBatch st (some entry :: entries.map some) = _
    rw [countingBatch, ih]
    rfl

/-- A block with an ordinary transaction before a prioritized one. -/
def twoTxs : BlockProcessRequest := ⟨[], 1, [[1], [0]], []⟩

/-- The second is delivered first, and its result is the second. -/
theorem processBlock_own_results_twoTxs :
    ∃ resp st', (∀ occ schedule, processBlock { countingApp with occEnabled := occ } schedule 0
        twoTxs = some (resp, st')) ∧
      resp.txResults = [some (countingResponse 1 [1]).execTxResult,
        some (countingResponse 0 [0]).execTxResult] := by
  obtain ⟨resp, st', -, hocc, hlen, hown⟩ :=
    processBlock_own_results (.inr occSerial_countingApp) 0 twoTxs
  refine ⟨resp, st', hocc occSerial_countingApp, List.ext_getElem? fun i => ?_⟩
  rcases i with _ | _ | i
  · exact hown 0 [1] rfl
  · exact hown 1 [0] rfl
  · have hpast : resp.txResults.length ≤ i + 1 + 1 := by
      rw [hlen]
      exact Nat.le_add_left _ _
    rw [List.getElem?_eq_none hpast]
    rfl

end BlockProcessing

end Sei

end RelayContracts
