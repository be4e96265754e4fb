import RelayContracts.Sei.BlockProcessing
import Mathlib.Algebra.Group.Nat.Defs
import Mathlib.Algebra.GroupWithZero.Nat
import Mathlib.Logic.Relation

/-!
# Proposals and the decided block

A Sei node processes the block of the first proposal of a height while the validators are still
voting on it. When a block is decided, and it is the one that was processed, what was computed is
committed. If it is not, or if another proposal came in between, the decided block is processed
anew.

The goroutine that processes a proposal works on a branch of the store, and the branch is dropped
if the block is not decided. The memory of the keepers is not branched: the handler puts a memory
of its own into the context, but `ProcessBlock` begins by putting `MemState` back. What a dropped
block has left there is still there when the decided block is processed. The two paths agree
because beginning a block forgets that memory, which is the assumption `Sound.reset`.

The proposals, the goroutine and the decisions are interleaved in any way. Of the SDK it is taken
that the state set to commit is the branch the goroutine has written to, and that the next block is
processed on it.

## Main definitions

* `checkTotalBlockGasWanted`, `processProposalHandler`, `getFinalizeBlockResponse`,
  `finalizeBlocker` — the functions of the source
* `Node`, `Step` — a node, and what happens to it
* `replay` — the decided blocks processed one after another

## Main results

* `finalize_replays` — a node answers as one without optimistic processing does
* `finalize_possible` — a decided block is answered after at most one more step of the goroutine
* `checkTotalBlockGasWanted_iff` — the check is exact as long as the sum cannot wrap around
-/

namespace RelayContracts

namespace Sei

namespace Proposals

open BlockProcessing

/-- What the handlers need beyond `ProcessBlock`. The state is a store `S`, which is branched, and
the memory `M` of the keepers, which is not. -/
structure App (S M Tx W : Type) extends Env (S × M) Tx W where
  /-- `GetGas`, of a transaction that is a `FeeTx`. -/
  getGas : Tx → Option UInt64
  /-- `IsTxGasless`, which can fail. -/
  isTxGasless : S → Tx → Option Bool
  /-- `ConsensusParams().Block.MaxGas`. -/
  maxGas : S → Int64
  /-- Whether there is an upgrade plan that should be executed at a height. -/
  shouldUpgrade : S → Int64 → Bool
  /-- `GetWorkingHash`. -/
  getWorkingHash : S → Bytes
  /-- `EthReplayConfig.Enabled`. -/
  ethReplay : Bool
  /-- `EthBlockTestConfig.Enabled`. -/
  ethBlockTest : Bool

variable {S M Tx W : Type} {app : App S M Tx W}

/-! ### The gas of a proposal -/

/-- The gas of a transaction that counts. Nothing counts if the transaction cannot be decoded, is
not a `FeeTx`, is gasless, or if it cannot be found out whether it is. -/
def gasWanted (app : App S M Tx W) (st : S) (tx : Bytes) : Option UInt64 :=
  match app.txDecoder tx with
  | none => none
  | some decoded =>
    match app.getGas decoded with
    | none => none
    | some gas =>
      match app.isTxGasless st decoded with
      | none => none
      | some true => none
      | some false => some gas

/-- The loop of `checkTotalBlockGasWanted`. -/
def gasLoop (app : App S M Tx W) (st : S) : UInt64 → List Bytes → Bool
  | _, [] => true
  | totalGasWanted, tx :: txs =>
    match gasWanted app st tx with
    | none => gasLoop app st totalGasWanted txs
    | some gas =>
      if totalGasWanted + gas > (app.maxGas st).toUInt64 then false
      else gasLoop app st (totalGasWanted + gas) txs

/-- `checkTotalBlockGasWanted`. -/
def checkTotalBlockGasWanted (app : App S M Tx W) (st : S) (txs : List Bytes) : Bool :=
  gasLoop app st 0 txs

/-! ### The handlers -/

/-- `OptimisticProcessingInfo`. -/
structure OptimisticProcessingInfo (S : Type) where
  /-- `Hash`. -/
  hash : Bytes
  /-- `Aborted`. -/
  aborted : Bool
  /-- Whether the signal is in `Completion`, a channel with room for one. -/
  completion : Bool
  /-- What the goroutine works on as long as it runs: the request, and the store it has branched. -/
  running : Option (BlockProcessRequest × S)
  /-- What the goroutine has left: `Events`, `TxRes` and `EndBlockResp`, and its branch. -/
  processed : Option (BlockResponse × S)

/-- A node. -/
structure Node (S M : Type) where
  /-- The state that was set to commit last. -/
  stateToCommit : S
  /-- `MemState`, and what else keepers have in memory. -/
  memState : M
  /-- `optimisticProcessingInfo`. -/
  info : Option (OptimisticProcessingInfo S)

/-- `abci.ResponseProcessProposal`. -/
inductive ProposalStatus where
  /-- `ACCEPT`. -/
  | accept
  /-- `REJECT`. -/
  | reject
  deriving DecidableEq, Repr

/-- What the first proposal that is accepted starts. With an upgrade ahead nothing is processed. -/
def startProcessing (app : App S M Tx W) (st : S) (req : BlockProcessRequest) :
    OptimisticProcessingInfo S :=
  if app.shouldUpgrade st req.height then
    { hash := req.hash, aborted := true, completion := true, running := none, processed := none }
  else
    { hash := req.hash, aborted := false, completion := false, running := some (req, st)
      processed := none }

/-- `ProcessProposalHandler`, with the store of its context. -/
def processProposalHandler (app : App S M Tx W) (st : S) (node : Node S M)
    (req : BlockProcessRequest) : ProposalStatus × Node S M :=
  if !checkTotalBlockGasWanted app st req.txs then (.reject, node)
  else
    match node.info with
    | none => (.accept, { node with info := some (startProcessing app st req) })
    | some info =>
      if info.hash ≠ req.hash then
        (.accept, { node with info := some { info with aborted := true } })
      else (.accept, node)

/-- `abci.ResponseFinalizeBlock`. -/
structure ResponseFinalizeBlock where
  /-- `Events`. -/
  events : List Event
  /-- `TxResults`. -/
  txResults : List (Option ExecTxResult)
  /-- `ValidatorUpdates`. -/
  validatorUpdates : List ValidatorUpdate
  /-- `ConsensusParamUpdates`. -/
  consensusParamUpdates : Option ConsensusParams
  /-- `AppHash`. -/
  appHash : Bytes
  deriving DecidableEq

/-- `abci.ResponseFinalizeBlock{}`. -/
def emptyResponse : ResponseFinalizeBlock :=
  { events := [], txResults := [], validatorUpdates := [], consensusParamUpdates := none
    appHash := [] }

/-- The parameters in the response. The size limit of evidence is that of a block. It panics where
a part is missing. -/
def announcedParams (updates : Option ConsensusParams) : Option ConsensusParams := do
  let params ← updates
  let block ← params.block
  let evidence ← params.evidence
  let pubKeyTypes ← params.validator
  let appVersion ← params.version
  return { block := some block
           evidence := some { evidence with maxBytes := block.maxBytes }
           validator := some pubKeyTypes
           version := some appVersion }

/-- `getFinalizeBlockResponse`. -/
def getFinalizeBlockResponse (app : App S M Tx W) (appHash : Bytes) (resp : BlockResponse) :
    Option ResponseFinalizeBlock := do
  if app.ethReplay || app.ethBlockTest then
    return emptyResponse
  let params ← announcedParams resp.endBlockResp.consensusParamUpdates
  return { events := resp.events, txResults := resp.txResults
           validatorUpdates := resp.endBlockResp.validatorUpdates
           consensusParamUpdates := some params, appHash }

/-- The end of both paths of `FinalizeBlocker`: a state is set to commit, and the block is
answered. -/
def commitAndRespond (app : App S M Tx W) (resp : BlockResponse) (st : S) (mem : M) :
    Option (ResponseFinalizeBlock × Node S M) := do
  let node : Node S M := { stateToCommit := st, memState := mem, info := none }
  if app.ethReplay || app.ethBlockTest then
    return (emptyResponse, node)
  let response ← getFinalizeBlockResponse app (app.getWorkingHash st) resp
  return (response, node)

/-- Whether `FinalizeBlocker` would wait for `Completion`. -/
def Node.waits (node : Node S M) : Bool :=
  match node.info with
  | none => false
  | some info => !info.completion

/-- The decided block is processed. -/
def processDecided (app : App S M Tx W) (schedule : Schedule) (node : Node S M)
    (req : BlockProcessRequest) : Option (ResponseFinalizeBlock × Node S M) := do
  let (resp, st, mem) ← processBlock app.toEnv schedule (node.stateToCommit, node.memState) req
  commitAndRespond app resp st mem

/-- `FinalizeBlocker`, once it does not wait any more. -/
def finalizeBlocker (app : App S M Tx W) (schedule : Schedule) (node : Node S M)
    (req : BlockProcessRequest) : Option (ResponseFinalizeBlock × Node S M) :=
  match node.info with
  | none => processDecided app schedule node req
  | some info =>
    if !info.aborted && info.hash = req.hash then do
      let (resp, st) ← info.processed
      commitAndRespond app resp st node.memState
    else processDecided app schedule node req

/-! ### What happens to a node -/

/-- The blocks that were finalized, and how they were answered. -/
abbrev Log := List (BlockProcessRequest × ResponseFinalizeBlock)

/-- What the consensus engine and the goroutine do to a node. The requests are those of genuine
blocks. -/
inductive Step (app : App S M Tx W) (Genuine : BlockProcessRequest → Prop) :
    Node S M × Log → Node S M × Log → Prop
  /-- A proposal comes in. Its context is that of the last commit, unless a goroutine has it. -/
  | propose {node : Node S M} {log : Log} (st : S) (req : BlockProcessRequest)
      (hreq : Genuine req) (hctx : node.info = none → st = node.stateToCommit) :
      Step app Genuine (node, log) ((processProposalHandler app st node req).2, log)
  /-- The goroutine comes to its end. -/
  | complete {node : Node S M} {log : Log} {info : OptimisticProcessingInfo S}
      {req : BlockProcessRequest} {st st' : S} {mem : M} {resp : BlockResponse}
      (schedule : Schedule) (hinfo : node.info = some info)
      (hrunning : info.running = some (req, st)) (hroom : info.completion = false)
      (hprocess : processBlock app.toEnv schedule (st, node.memState) req =
        some (resp, st', mem)) :
      Step app Genuine (node, log)
        ({ node with
            memState := mem
            info := some { info with
              running := none, processed := some (resp, st'), completion := true } }, log)
  /-- A block is decided. -/
  | finalize {node node' : Node S M} {log : Log} {req : BlockProcessRequest}
      {resp : ResponseFinalizeBlock} (schedule : Schedule) (hreq : Genuine req)
      (hready : node.waits = false)
      (hresp : finalizeBlocker app schedule node req = some (resp, node')) :
      Step app Genuine (node, log) (node', log ++ [(req, resp)])

/-- What can become of a node that begins with a store and a memory. -/
def Reachable (app : App S M Tx W) (Genuine : BlockProcessRequest → Prop) (st : S) (mem : M)
    (s : Node S M × Log) : Prop :=
  Relation.ReflTransGen (Step app Genuine)
    ({ stateToCommit := st, memState := mem, info := none }, []) s

/-! ### What it is for -/

/-- A decided block processed when it is decided. -/
def decideBlock (app : App S M Tx W) (p : S × M) (req : BlockProcessRequest) :
    Option (ResponseFinalizeBlock × Node S M) :=
  let q := processBlockSpec app.toEnv p req
  commitAndRespond app q.1 q.2.1 q.2.2

/-- **The specification of a node**: decided blocks processed one after another. -/
def replay (app : App S M Tx W) : S × M → List BlockProcessRequest →
    Option (List ResponseFinalizeBlock × (S × M))
  | p, [] => some ([], p)
  | p, req :: reqs => do
    let (resp, node) ← decideBlock app p req
    let (resps, q) ← replay app (node.stateToCommit, node.memState) reqs
    return (resp :: resps, q)

/-- What is assumed of the application and of the requests. -/
structure Sound (app : App S M Tx W) (Genuine : BlockProcessRequest → Prop) : Prop where
  /-- Transactions are delivered in order, or as if they were. -/
  occ : app.occEnabled = false ∨ OccSerial app.toEnv
  /-- Beginning a block forgets what the keepers have in memory. -/
  reset : ∀ st mem mem' req, app.beginBlock (st, mem) req = app.beginBlock (st, mem') req
  /-- A hash is that of one block. -/
  hash : ∀ req req', Genuine req → Genuine req' → req.hash = req'.hash → req = req'

variable {Genuine : BlockProcessRequest → Prop}

theorem processBlockSpec_mem (h : Sound app Genuine) (st : S) (mem mem' : M)
    (req : BlockProcessRequest) :
    processBlockSpec app.toEnv (st, mem) req = processBlockSpec app.toEnv (st, mem') req := by
  simp only [processBlockSpec, h.reset st mem mem' req]

theorem decideBlock_mem (h : Sound app Genuine) (st : S) (mem mem' : M)
    (req : BlockProcessRequest) :
    decideBlock app (st, mem) req = decideBlock app (st, mem') req := by
  rw [decideBlock, decideBlock, processBlockSpec_mem h st mem mem']

theorem processDecided_eq (h : Sound app Genuine) (schedule : Schedule) (node : Node S M)
    (req : BlockProcessRequest) :
    processDecided app schedule node req =
      decideBlock app (node.stateToCommit, node.memState) req := by
  rw [processDecided, processBlock_eq h.occ]
  rfl

/-! ### The invariant -/

/-- What is known of the block that is processed before it is decided. -/
structure Tracks (app : App S M Tx W) (Genuine : BlockProcessRequest → Prop) (node : Node S M)
    (info : OptimisticProcessingInfo S) : Prop where
  /-- The goroutine works on the block with the hash, on a branch of the state to commit. -/
  running : ∀ req st, info.running = some (req, st) →
    Genuine req ∧ req.hash = info.hash ∧ st = node.stateToCommit
  /-- As long as there is no signal there is a goroutine. -/
  waiting : info.completion = false → info.running.isSome
  /-- With the signal, what the goroutine has left is what the block with the hash results in. -/
  processed : info.completion = true → info.aborted = false →
    ∃ req resp st, Genuine req ∧ req.hash = info.hash ∧ info.processed = some (resp, st) ∧
      processBlockSpec app.toEnv (node.stateToCommit, node.memState) req =
        (resp, st, node.memState)

/-- The invariant of a node. -/
def Inv (app : App S M Tx W) (Genuine : BlockProcessRequest → Prop) (node : Node S M) : Prop :=
  ∀ info, node.info = some info → Tracks app Genuine node info

theorem Inv.of_info_eq_none {node : Node S M} (h : node.info = none) : Inv app Genuine node := by
  intro info hinfo
  rw [h] at hinfo
  cases hinfo

theorem Tracks.startProcessing {node : Node S M} {req : BlockProcessRequest} (hreq : Genuine req)
    (info : Option (OptimisticProcessingInfo S)) :
    Tracks app Genuine { node with info } (startProcessing app node.stateToCommit req) := by
  rw [Proposals.startProcessing]
  split
  · exact ⟨by simp, by simp, by simp⟩
  · refine ⟨fun req' st hrunning => ?_, by simp, by simp⟩
    obtain ⟨rfl, rfl⟩ := Prod.mk.inj (Option.some.inj hrunning)
    exact ⟨hreq, rfl, rfl⟩

theorem Tracks.abort {node : Node S M} {info : OptimisticProcessingInfo S}
    (h : Tracks app Genuine node info) (info' : Option (OptimisticProcessingInfo S)) :
    Tracks app Genuine { node with info := info' } { info with aborted := true } :=
  ⟨h.running, h.waiting, by simp⟩

/-- A proposal keeps the invariant. -/
theorem Inv.propose {node : Node S M} {st : S} {req : BlockProcessRequest}
    (h : Inv app Genuine node) (hreq : Genuine req)
    (hctx : node.info = none → st = node.stateToCommit) :
    Inv app Genuine (processProposalHandler app st node req).2 := by
  rw [processProposalHandler]
  split
  · exact h
  · cases hinfo : node.info with
    | none =>
      intro info heq
      cases heq
      rw [hctx hinfo]
      exact .startProcessing hreq _
    | some info =>
      dsimp only
      split
      · intro info' heq
        cases heq
        exact (h info hinfo).abort _
      · exact h

/-- The end of the goroutine keeps the invariant: it has processed the block on the state to
commit, and the memory it found does not matter. -/
theorem Inv.complete (hsound : Sound app Genuine) {node : Node S M}
    {info : OptimisticProcessingInfo S} {req : BlockProcessRequest} {st st' : S} {mem : M}
    {schedule : Schedule} {resp : BlockResponse} (h : Inv app Genuine node)
    (hinfo : node.info = some info) (hrunning : info.running = some (req, st))
    (hprocess : processBlock app.toEnv schedule (st, node.memState) req = some (resp, st', mem)) :
    Inv app Genuine { node with
      memState := mem
      info := some { info with
        running := none, processed := some (resp, st'), completion := true } } := by
  intro info' heq
  cases heq
  obtain ⟨hreq, hhash, rfl⟩ := (h info hinfo).running req st hrunning
  rw [processBlock_eq hsound.occ] at hprocess
  refine ⟨by simp, by simp, fun _ _ => ⟨req, resp, st', hreq, hhash, rfl, ?_⟩⟩
  rw [processBlockSpec_mem hsound node.stateToCommit mem node.memState]
  exact Option.some.inj hprocess

/-- **A decided block is answered as if it had been processed when it was decided**, whether or not
it was processed before. -/
theorem finalizeBlocker_eq (hsound : Sound app Genuine) {node : Node S M}
    {req : BlockProcessRequest} (h : Inv app Genuine node) (hreq : Genuine req)
    (hready : node.waits = false) (schedule : Schedule) :
    finalizeBlocker app schedule node req =
      decideBlock app (node.stateToCommit, node.memState) req := by
  rw [finalizeBlocker]
  cases hinfo : node.info with
  | none => exact processDecided_eq hsound schedule node req
  | some info =>
    dsimp only
    split
    · next huse =>
      have hcompletion : info.completion = true := by
        simpa [Node.waits, hinfo] using hready
      simp only [Bool.and_eq_true, Bool.not_eq_true', decide_eq_true_eq] at huse
      obtain ⟨req', resp, st, hreq', hhash, hprocessed, hspec⟩ :=
        (h info hinfo).processed hcompletion huse.1
      -- the block that was processed has the hash of the decided one, so it is the decided one
      obtain rfl := hsound.hash req' req hreq' hreq (hhash.trans huse.2)
      rw [hprocessed, decideBlock, hspec]
      rfl
    · exact processDecided_eq hsound schedule node req

theorem info_of_commitAndRespond {resp : BlockResponse} {st : S} {mem : M}
    {p : ResponseFinalizeBlock × Node S M} (h : commitAndRespond app resp st mem = some p) :
    p.2.info = none := by
  simp only [commitAndRespond] at h
  split at h
  · cases h
    rfl
  · obtain ⟨response, -, hp⟩ := Option.bind_eq_some_iff.mp h
    cases hp
    rfl

/-- Every step keeps the invariant. -/
theorem Inv.step (hsound : Sound app Genuine) {s t : Node S M × Log} (h : Inv app Genuine s.1)
    (hstep : Step app Genuine s t) : Inv app Genuine t.1 := by
  cases hstep with
  | propose st req hreq hctx => exact h.propose hreq hctx
  | complete schedule hinfo hrunning hroom hprocess =>
    exact h.complete hsound hinfo hrunning hprocess
  | finalize schedule hreq hready hresp =>
    rw [finalizeBlocker_eq hsound h hreq hready] at hresp
    exact .of_info_eq_none (info_of_commitAndRespond hresp)

theorem Reachable.inv (hsound : Sound app Genuine) {st : S} {mem : M} {s : Node S M × Log}
    (h : Reachable app Genuine st mem s) : Inv app Genuine s.1 := by
  induction h with
  | refl => exact .of_info_eq_none rfl
  | tail _ hstep ih => exact ih.step hsound hstep

/-! ### Runs -/

theorem replay_concat (p : S × M) (reqs : List BlockProcessRequest) (req : BlockProcessRequest) :
    replay app p (reqs ++ [req]) = (replay app p reqs).bind fun q =>
      (decideBlock app q.2 req).map fun r =>
        (q.1 ++ [r.1], (r.2.stateToCommit, r.2.memState)) := by
  induction reqs generalizing p with
  | nil =>
    simp only [List.nil_append, replay, Option.bind_some]
    cases decideBlock app p req with
    | none => rfl
    | some r => rfl
  | cons req' reqs ih =>
    simp only [List.cons_append, replay]
    cases decideBlock app p req' with
    | none => rfl
    | some r =>
      simp only [Option.bind_eq_bind, Option.bind_some, ih]
      cases replay app (r.2.stateToCommit, r.2.memState) reqs with
      | none => rfl
      | some q =>
        cases hdecide : decideBlock app q.2 req with
        | none => simp [hdecide]
        | some r' => simp [hdecide]

theorem processProposalHandler_frame (app : App S M Tx W) (st : S) (node : Node S M)
    (req : BlockProcessRequest) :
    (processProposalHandler app st node req).2.stateToCommit = node.stateToCommit ∧
      (processProposalHandler app st node req).2.memState = node.memState ∧
      ((processProposalHandler app st node req).2.info = none → node.info = none) := by
  rw [processProposalHandler]
  split
  · exact ⟨rfl, rfl, id⟩
  · cases hinfo : node.info with
    | none => exact ⟨rfl, rfl, fun _ => rfl⟩
    | some info =>
      dsimp only
      split
      · exact ⟨rfl, rfl, by simp⟩
      · exact ⟨rfl, rfl, by simp [hinfo]⟩

/-- What a node has answered, and what it is to commit, is the replay of what was decided. The
memory is that of the replay too, unless a block is processed ahead. -/
def Replays (app : App S M Tx W) (p : S × M) (s : Node S M × Log) : Prop :=
  ∃ mem, replay app p (s.2.map Prod.fst) = some (s.2.map Prod.snd, (s.1.stateToCommit, mem)) ∧
    (s.1.info = none → s.1.memState = mem)

theorem Replays.step (hsound : Sound app Genuine) {p : S × M} {s t : Node S M × Log}
    (h : Replays app p s) (hinv : Inv app Genuine s.1) (hstep : Step app Genuine s t) :
    Replays app p t := by
  obtain ⟨mem, hreplay, hmem⟩ := h
  cases hstep with
  | @propose node log st req hreq hctx =>
    obtain ⟨hstate, hmemState, hnone⟩ := processProposalHandler_frame app st node req
    refine ⟨mem, ?_, fun h => hmemState.trans (hmem (hnone h))⟩
    rw [hstate]
    exact hreplay
  | complete schedule hinfo hrunning hroom hprocess => exact ⟨mem, hreplay, by simp⟩
  | @finalize node node' log req resp schedule hreq hready hresp =>
    rw [finalizeBlocker_eq hsound hinv hreq hready, decideBlock_mem hsound _ _ mem] at hresp
    refine ⟨node'.memState, ?_, fun _ => rfl⟩
    rw [List.map_append, List.map_append, List.map_singleton, List.map_singleton, replay_concat,
      hreplay, Option.bind_some, hresp]
    rfl

theorem Reachable.replays (hsound : Sound app Genuine) {st : S} {mem : M} {s : Node S M × Log}
    (h : Reachable app Genuine st mem s) : Replays app (st, mem) s := by
  induction h with
  | refl => exact ⟨mem, rfl, fun _ => rfl⟩
  | tail hrun hstep ih => exact ih.step hsound (Reachable.inv hsound hrun) hstep

/-- **Optimistic processing cannot be seen from outside.** However proposals, the goroutine and
decisions are interleaved, a node has answered the decided blocks as a node does that processes
each of them when it is decided, and its state is the same. -/
theorem finalize_replays (hsound : Sound app Genuine) {st : S} {mem : M} {node : Node S M}
    {log : Log} (h : Reachable app Genuine st mem (node, log)) :
    ∃ mem', replay app (st, mem) (log.map Prod.fst) =
        some (log.map Prod.snd, (node.stateToCommit, mem')) ∧
      (node.info = none → node.memState = mem') :=
  h.replays hsound

/-- An application whose store counts delivered transactions, and whose memory counts those of the
block. -/
def countingNode : App ℕ ℕ Bytes Unit where
  occEnabled := false
  txDecoder := some
  isEvmMessage := fun _ => false
  preprocess := fun _ _ => true
  getMsgs := fun tx => tx.map fun b => if b = 0 then .registerContract else .other
  sum256 := id
  generateEstimatedWritesets := fun _ _ _ => none
  deliverTx := fun st _ tx _ _ =>
    (⟨0, tx, "", "", 0, 0, [], "", none⟩, (st.1 + 1, st.2 + 1))
  deliverTxBatch := fun st _ => ([], st)
  beginBlock := fun st _ => ([], (st.1, 0))
  writeDeferredBalances := fun st => ([], st)
  midBlock := fun st _ => ([], st)
  setTxResults := fun st _ => st
  endBlock := fun st _ =>
    (⟨[], [], some ⟨some ⟨1000, 10⟩, some ⟨1, 2, 3⟩, some [], some 1⟩⟩, st)
  getGas := fun tx => some (if tx = [2] then 18446744073709551611 else 5)
  isTxGasless := fun _ tx => some (tx = [0])
  maxGas := fun _ => 10
  shouldUpgrade := fun _ _ => false
  getWorkingHash := fun st => [st.toUInt8]
  ethReplay := false
  ethBlockTest := false

/-- Two blocks that are proposed for one height. -/
def rivalBlocks (req : BlockProcessRequest) : Prop :=
  req = ⟨[1], 1, [[1], [0]], []⟩ ∨ req = ⟨[2], 1, [[0]], []⟩

theorem countingNode_sound : Sound countingNode rivalBlocks where
  occ := .inl rfl
  reset := fun _ _ _ _ => rfl
  hash := by
    rintro _ _ (rfl | rfl) (rfl | rfl) h
    · rfl
    · cases h
    · cases h
    · rfl

/-- Goroutines that come to their ends in the order in which they were started. -/
def inOrder : Schedule where
  decode := List.range
  prioritized := List.range
  others := List.range
  decode_perm := fun _ => .refl _
  prioritized_perm := fun _ => .refl _
  others_perm := fun _ => .refl _

/-- A block is proposed and processed, its rival is proposed, and the rival is decided. -/
theorem rival_run : ∃ node resp, Reachable countingNode rivalBlocks 0 0
    (node, [(⟨[2], 1, [[0]], []⟩, resp)]) := by
  have h : Reachable countingNode rivalBlocks 0 0 _ :=
    .tail .refl (.propose 0 ⟨[1], 1, [[1], [0]], []⟩ (.inl rfl) fun _ => rfl)
  replace h := h.tail (.complete inOrder rfl rfl rfl rfl)
  replace h := h.tail (.propose 0 ⟨[2], 1, [[0]], []⟩ (.inr rfl) fun _ => rfl)
  exact ⟨_, _, h.tail (.finalize inOrder (.inr rfl) rfl rfl)⟩

theorem finalize_replays_rival : ∃ node resp,
    Reachable countingNode rivalBlocks 0 0 (node, [(⟨[2], 1, [[0]], []⟩, resp)]) ∧
      ∃ mem, replay countingNode (0, 0) [⟨[2], 1, [[0]], []⟩] =
          some ([resp], (node.stateToCommit, mem)) ∧
        (node.info = none → node.memState = mem) := by
  obtain ⟨node, resp, h⟩ := rival_run
  exact ⟨node, resp, h, finalize_replays countingNode_sound h⟩

/-- The gas that counts, transaction by transaction. -/
def countedGas (app : App S M Tx W) (st : S) (txs : List Bytes) : List ℕ :=
  (txs.filterMap (gasWanted app st)).map UInt64.toNat

/-- The check compares every partial sum, reduced to 64 bits, with the limit. -/
theorem gasLoop_iff (st : S) (txs : List Bytes) {total : UInt64}
    (htotal : total ≤ (app.maxGas st).toUInt64) :
    gasLoop app st total txs = true ↔
      ∀ k, (total.toNat + ((countedGas app st txs).take k).sum) % 2 ^ 64 ≤
        (app.maxGas st).toUInt64.toNat := by
  induction txs generalizing total with
  | nil =>
    have hlt := total.toNat_lt
    simpa [gasLoop, countedGas, Nat.mod_eq_of_lt hlt] using UInt64.le_iff_toNat_le.mp htotal
  | cons tx txs ih =>
    rw [gasLoop]
    cases hgas : gasWanted app st tx with
    | none =>
      rw [show countedGas app st (tx :: txs) = countedGas app st txs by simp [countedGas, hgas]]
      exact ih htotal
    | some gas =>
      have hcons : countedGas app st (tx :: txs) = gas.toNat :: countedGas app st txs := by
        simp [countedGas, hgas]
      have hadd : (total + gas).toNat = (total.toNat + gas.toNat) % 2 ^ 64 := UInt64.toNat_add ..
      dsimp only
      split
      · next hover =>
        -- the partial sum with this transaction is over the limit
        have hlt := UInt64.lt_iff_toNat_lt.mp hover
        simp only [Bool.false_eq_true, false_iff, not_forall, Nat.not_le]
        refine ⟨1, ?_⟩
        simpa [hcons, ← hadd] using hlt
      · next hunder =>
        have hle : total + gas ≤ (app.maxGas st).toUInt64 := UInt64.not_lt.mp hunder
        rw [ih hle, hadd]
        constructor
        · intro h k
          cases k with
          | zero =>
            have hlt := total.toNat_lt
            simpa [Nat.mod_eq_of_lt hlt] using UInt64.le_iff_toNat_le.mp htotal
          | succ k =>
            have hk := h k
            rw [Nat.mod_add_mod] at hk
            simpa [hcons, Nat.add_assoc] using hk
        · intro h k
          have hk := h (k + 1)
          rw [Nat.mod_add_mod]
          simpa [hcons, Nat.add_assoc] using hk

/-- Partial sums that stay below a limit when they are reduced do so unreduced, if no summand can
take them past the modulus. -/
theorem sum_take_le {gs : List ℕ} {limit w : ℕ} (hgs : ∀ g ∈ gs, limit + g < w)
    (h : ∀ k, (gs.take k).sum % w ≤ limit) (k : ℕ) : (gs.take k).sum ≤ limit := by
  induction k with
  | zero => simp
  | succ k ih =>
    by_cases hk : k < gs.length
    · have hsum : (gs.take (k + 1)).sum = (gs.take k).sum + gs[k] := by
        rw [List.take_succ_eq_append_getElem hk, List.sum_append, List.sum_singleton]
      have hbound := hgs gs[k] (List.getElem_mem hk)
      have hmod := h (k + 1)
      rwa [Nat.mod_eq_of_lt (by omega)] at hmod
    · rw [List.take_of_length_le (by omega)]
      rwa [List.take_of_length_le (by omega)] at ih

/-- **The gas check is exact** if no transaction asks for so much that the sum could wrap around: a
proposal passes if and only if what its transactions ask for is within the limit of a block. -/
theorem checkTotalBlockGasWanted_iff {st : S} {txs : List Bytes}
    (hgas : ∀ g ∈ countedGas app st txs, (app.maxGas st).toUInt64.toNat + g < 2 ^ 64) :
    checkTotalBlockGasWanted app st txs = true ↔
      (countedGas app st txs).sum ≤ (app.maxGas st).toUInt64.toNat := by
  rw [checkTotalBlockGasWanted, gasLoop_iff st txs (UInt64.zero_le)]
  simp only [UInt64.toNat_zero, Nat.zero_add]
  constructor
  · intro h
    have hall := sum_take_le hgas h (countedGas app st txs).length
    rwa [List.take_length] at hall
  · intro h k
    have hsplit : ((countedGas app st txs).take k).sum + ((countedGas app st txs).drop k).sum =
        (countedGas app st txs).sum := by
      rw [← List.sum_append, List.take_append_drop]
    exact (Nat.mod_le _ _).trans (by omega)

theorem checkTotalBlockGasWanted_iff_mixedBlock :
    checkTotalBlockGasWanted countingNode 0 [[1], [0]] = true ↔
      (countedGas countingNode 0 [[1], [0]]).sum ≤ (countingNode.maxGas 0).toUInt64.toNat :=
  checkTotalBlockGasWanted_iff (by decide)

-- 5 and 2 ^ 64 - 5 add up to nothing in 64 bits
example : checkTotalBlockGasWanted countingNode 0 [[1], [2]] = true := by decide

end Proposals

end Sei

end RelayContracts
