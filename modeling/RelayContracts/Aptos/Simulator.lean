import RelayContracts.SequenceNumbers

/-!
# The simulator of the Aptos benchmark

A `Similator` has a universe of accounts and a view of the state. Each workload builds a block that
initializes the contract, executes it and applies it to the view, and then builds a block of
transactions by accounts that are drawn at random, which it executes but does not apply. The replay
of ERC20 transfers only builds blocks of the second kind, and any number of them.

A transaction has to carry the sequence number of its sender in the state that it is executed in.
There are two ways of counting. The workloads use a counter in the account, which is moved on with
each transaction, also in the second block. The replay uses a map of its own, which starts from the
counters anew for each block and leaves them alone.

What is not in the sources is in `Env`: the VM, the time that it takes, the addresses and the store
that the universe is set up in. A `Vec` of transactions has a largest capacity. An account is its
index in the universe, and the `j`-th number that is drawn for transaction `k` is `rand k j`,
reduced to the range that was asked for.

## Main definitions

* `Env`, `Similator`, `withAccountNums` — the simulator
* `runWorkload` — the workloads, with the two blocks that they execute
* `genTransactionForErc20`, `replayErc20` — the replay

## Main results

* `sequence_numbers_gapless` — in all of them, the numbers of an account follow each other from the
  one that it has in the genesis state
-/

namespace RelayContracts

namespace Aptos

namespace Simulator

open SequenceNumbers

/-- Why the simulator panicked. -/
inductive Panic where
  /-- An index was out of bounds. -/
  | outOfBounds
  /-- A slice was split beyond its end. -/
  | splitOutOfBounds
  /-- `gen_range` of an empty range. -/
  | emptyRange
  /-- An integer overflowed. -/
  | overflow
  /-- The capacity of a `Vec` overflowed. -/
  | capacityOverflow
  /-- A division by zero, or the remainder of one. -/
  | divisionByZero
  /-- "VM should not fail to start". -/
  | vmFailed
  /-- A transaction was not kept with success. -/
  | notSuccess
  deriving DecidableEq, Repr

/-- The payload of a transaction. -/
inductive Payload where
  /-- `xtl_airdrop_initialize(amount)`. -/
  | airdropInitialize (amount : ℕ)
  /-- `xtl_airdrop_transfer_n(receiver)`. -/
  | airdropTransferN (receivers : List ℕ)
  /-- `xtl_ballot_initialize(names)`. -/
  | ballotInitialize (names : List String)
  /-- `xtl_ballot_vote(forum, proposal_index)`. -/
  | ballotVote (forum proposalIndex : ℕ)
  /-- `xtl_million_pixel_initialize()`. -/
  | millionPixelInitialize
  /-- `xtl_million_pixel_occupy(globalstore, x, y)`. -/
  | millionPixelOccupy (globalstore x y : ℕ)
  /-- `xtl_kitty_breeding_initialize()`. -/
  | kittyInitialize
  /-- `xtl_kitty_breeding_mint(globalstore, genes, gender)`. -/
  | kittyMint (globalstore genes : ℕ) (gender : Bool)
  /-- `xtl_kitty_breeding_breed(globalstore, m, s, gender)`. -/
  | kittyBreed (globalstore m s : ℕ) (gender : Bool)
  /-- `xtl_empty_empty()`. -/
  | empty
  /-- `aptos_coin_transfer(receiver, transfer_amount)`. -/
  | coinTransfer (receiver amount : ℕ)
  deriving DecidableEq, Repr

/-- `SignedTransaction`. -/
structure SignedTransaction where
  /-- The account that signs. -/
  sender : ℕ
  /-- The payload. -/
  payload : Payload
  /-- `sequence_number`. -/
  sequenceNumber : ℕ
  /-- `gas_unit_price`. -/
  gasUnitPrice : ℕ
  deriving DecidableEq, Repr

/-- `TransactionOutput`, in a state of type `S`. -/
structure Output (S : Type) where
  /-- The status is `Keep(Success)`. -/
  success : Bool
  /-- What `add_write_set` does with the write set. -/
  writeSet : S → S

/-- What the simulator runs in. -/
structure Env (S : Type) where
  /-- How integers overflow. -/
  overflow : Overflow
  /-- How many transactions fit into a `Vec`. -/
  capacity : ℕ
  /-- A `Vec` has at most `2 ^ 63 - 1` bytes, and a transaction has more than one. -/
  capacity_le : capacity ≤ 2 ^ 62
  /-- `num_cpus::get()`. -/
  numCpus : ℕ
  /-- `BlockAptosVM::execute_block`, with the milliseconds that it takes. -/
  executeBlock : (concurrency : ℕ) → (gasLimit : Option ℕ) → List SignedTransaction → S →
    Option (List (Output S) × ℕ)
  /-- The last byte of the address of an account. -/
  lastByte : ℕ → ℕ
  /-- It is a byte. -/
  lastByte_lt : ∀ account, lastByte account < 2 ^ 8
  /-- `FakeExecutor::from_head_genesis()`. -/
  headGenesis : S
  /-- `add_account_data`, for the sequence number of an account. -/
  addAccountData : (account sequenceNumber : ℕ) → S → S
  /-- The sequence number of an account in a state. -/
  sequenceNumber : S → ℕ → ℕ
  /-- An account that was added has its number, and the others keep theirs. -/
  sequenceNumber_add : ∀ account n s,
    sequenceNumber (addAccountData account n s) = Function.update (sequenceNumber s) account n

/-- `AccountUniverseGen`: the sequence numbers of the accounts, which are picked in a range that
leaves room for transactions. -/
structure Universe where
  /-- The sequence numbers. -/
  sequenceNumbers : List ℕ
  /-- They are not large. -/
  lt : ∀ s ∈ sequenceNumbers, s < 2 ^ 63

/-- `struct Similator`. -/
structure Similator (S : Type) where
  /-- `account_universe`: the `sequence_number` of each `AccountCurrent`. -/
  accounts : List ℕ
  /-- `state_view`. -/
  stateView : S

/-- What a workload has executed, and how it has left the simulator. -/
structure Executed (S : Type) where
  /-- The block that initializes. -/
  initialized : List SignedTransaction
  /-- The block of the benchmark. -/
  benchmark : List SignedTransaction
  /-- The simulator after it. -/
  similator : Similator S

variable {S : Type} (env : Env S)

/-! ### Building a block -/

/-- `v.push(txn)`. -/
def push (v : List SignedTransaction) (txn : SignedTransaction) :
    Except Panic (List SignedTransaction) :=
  if v.length < env.capacity then .ok (v ++ [txn]) else .error .capacityOverflow

/-- `accounts[i]`. -/
def account (accounts : List ℕ) (i : ℕ) : Except Panic ℕ :=
  match accounts[i]? with
  | none => .error .outOfBounds
  | some sequenceNumber => .ok sequenceNumber

/-- `rng.gen_range(low, high)`. -/
def genRange (low high r : ℕ) : Except Panic ℕ :=
  if low < high then .ok (low + r % (high - low)) else .error .emptyRange

/-- `accounts_mut().split_at_mut(mid)`, of which only the panic matters: account `i` of the second
part is account `mid + i`. -/
def splitAtMut (accounts : List ℕ) (mid : ℕ) : Except Panic Unit :=
  if mid ≤ accounts.length then .ok () else .error .splitOutOfBounds

/-- Make a transaction with the sequence number of the sender, move that on, and push the
transaction. -/
def send (i : ℕ) (payload : Payload) (accounts : List ℕ) (txns : List SignedTransaction) :
    Except Panic (List ℕ × List SignedTransaction) := do
  let sequenceNumber ← account accounts i
  let next ← faultAs .overflow (addU env.overflow 64 sequenceNumber 1)
  let txns ← push env txns ⟨i, payload, sequenceNumber, 100⟩
  .ok (accounts.set i next, txns)

/-- The loops of the workloads. Each step decides about the sender and the payload. -/
def sendAll : List (Except Panic (ℕ × Payload)) → List ℕ → List SignedTransaction →
    Except Panic (List ℕ × List SignedTransaction)
  | [], accounts, txns => .ok (accounts, txns)
  | step :: steps, accounts, txns => do
    let (i, payload) ← step
    let (accounts, txns) ← send env i payload accounts txns
    sendAll steps accounts txns

/-! ### Executing a block -/

/-- `output.iter().for_each(|txn_output| assert_eq!(..))`, and what is done with each write set. -/
def applyOutputs : List (Output S) → S → Except Panic S
  | [], s => .ok s
  | output :: outputs, s =>
    if output.success then applyOutputs outputs (output.writeSet s) else .error .notSuccess

/-- `execute_and_apply_transactions(signed_transactions)`. -/
def executeAndApplyTransactions (txns : List SignedTransaction) (s : S) : Except Panic S :=
  match env.executeBlock env.numCpus none txns s with
  | none => .error .vmFailed
  | some (outputs, _) => applyOutputs outputs s

/-- `execute_benchmark_parallel` and, for one thread, `execute_benchmark_sequential`, with the
transactions per second. -/
def executeBenchmark (concurrency : ℕ) (gasLimit : Option ℕ) (txns : List SignedTransaction)
    (s : S) : Except Panic (List (Output S) × ℕ) :=
  match env.executeBlock concurrency gasLimit txns s with
  | none => .error .vmFailed
  | some (outputs, millis) => do
    let scaled ← faultAs .overflow (mulU env.overflow 64 txns.length 1000)
    let tps ← faultAs .divisionByZero (divU scaled (millis % 2 ^ 64))
    .ok (outputs, tps)

/-- One of the two halves of `execute_blockstm_benchmark`, if it is run. -/
def executeHalf (run : Bool) (concurrency : ℕ) (gasLimit : Option ℕ)
    (txns : List SignedTransaction) (s : S) : Except Panic ℕ :=
  if run then do
    let (outputs, tps) ← executeBenchmark env concurrency gasLimit txns s
    if outputs.all Output.success then .ok tps else .error .notSuccess
  else .ok 0

/-- `execute_blockstm_benchmark(transactions, run_par, run_seq, ..)`. Nothing is applied to the
view. -/
def executeBlockstmBenchmark (runPar runSeq : Bool) (concurrency : ℕ) (gasLimit : Option ℕ)
    (txns : List SignedTransaction) (s : S) : Except Panic (ℕ × ℕ) := do
  let parTps ← executeHalf env runPar concurrency gasLimit txns s
  let seqTps ← executeHalf env runSeq 1 gasLimit txns s
  .ok (parTps, seqTps)

/-! ### The workloads -/

/-- What the workloads have in common: build the first block, execute and apply it, build the second
block and execute it. -/
def runBlocks (init bench : List (Except Panic (ℕ × Payload))) (sim : Similator S) :
    Except Panic (Executed S) := do
  let (accounts, initialized) ← sendAll env init sim.accounts []
  let stateView ← executeAndApplyTransactions env initialized sim.stateView
  let (accounts, benchmark) ← sendAll env bench accounts []
  let _ ← executeBlockstmBenchmark env true true env.numCpus none benchmark stateView
  .ok ⟨initialized, benchmark, ⟨accounts, stateView⟩⟩

/-- The proposals of a ballot. -/
def proposals : List String := ["aa", "bb", "cc"]

/-- `run_airdrop(transaction_nums)`. -/
def runAirdrop (rand : ℕ → ℕ → ℕ) (transactionNums : ℕ) (sim : Similator S) :
    Except Panic (Executed S) :=
  let accNums := sim.accounts.length
  runBlocks env
    ((List.range accNums).map fun i => .ok (i, .airdropInitialize 1000000000))
    ((List.range transactionNums).map fun k => do
      let sender ← genRange 0 accNums (rand k 0)
      let receivers ← (List.range' 1 5).mapM fun j => genRange 0 accNums (rand k j)
      .ok (sender, .airdropTransferN receivers))
    sim

/-- `run_ballot_sharding(transaction_num, shard_num)`. The first accounts have the forums, and a
voter goes to the forum that its address says. -/
def runBallotSharding (rand : ℕ → ℕ → ℕ) (transactionNum shardNum : ℕ) (sim : Similator S) :
    Except Panic (Executed S) := do
  let accNums := sim.accounts.length
  splitAtMut sim.accounts shardNum
  runBlocks env
    ((List.range shardNum).map fun i => .ok (i, .ballotInitialize proposals))
    ((List.range transactionNum).map fun k => do
      let proposalIndex ← genRange 0 3 (rand k 0)
      let senderIndex ← genRange 0 (accNums - shardNum) (rand k 1)
      let sender := shardNum + senderIndex
      if shardNum % 2 ^ 8 = 0 then .error .divisionByZero
      else .ok (sender, .ballotVote (env.lastByte sender % (shardNum % 2 ^ 8)) proposalIndex))
    sim

/-- `run_ballot(transaction_num)`. Its one forum does not depend on the address. -/
def runBallot (rand : ℕ → ℕ → ℕ) (transactionNum : ℕ) (sim : Similator S) :
    Except Panic (Executed S) := do
  let accNums := sim.accounts.length
  splitAtMut sim.accounts 1
  runBlocks env [.ok (0, .ballotInitialize proposals)]
    ((List.range transactionNum).map fun k => do
      let proposalIndex ← genRange 0 3 (rand k 0)
      let senderIndex ← genRange 0 (accNums - 1) (rand k 1)
      .ok (1 + senderIndex, .ballotVote 0 proposalIndex))
    sim

/-- `run_mp(transaction_num)`. -/
def runMp (rand : ℕ → ℕ → ℕ) (transactionNum : ℕ) (sim : Similator S) :
    Except Panic (Executed S) := do
  splitAtMut sim.accounts 1
  let accNums := sim.accounts.length - 1
  runBlocks env [.ok (0, .millionPixelInitialize)]
    ((List.range transactionNum).map fun k => do
      let x ← genRange 0 100 (rand k 0)
      let y ← genRange 0 100 (rand k 1)
      let senderIndex ← genRange 0 accNums (rand k 2)
      .ok (1 + senderIndex, .millionPixelOccupy 0 x y))
    sim

/-- The mints of `run_kitty`, one for each account but the first. -/
def kittyMints (genes : ℕ → ℕ) (gender : Bool) (accNums : ℕ) :
    List (Except Panic (ℕ × Payload)) :=
  (List.range accNums).map fun i => do
    let genes ← genRange 0 (2 ^ 32 - 1) (genes i)
    .ok (1 + i, .kittyMint 0 genes gender)

/-- `run_kitty(transaction_num)`. The genes are drawn from `genes` in the two loops of mints. -/
def runKitty (genes : Bool → ℕ → ℕ) (rand : ℕ → ℕ → ℕ) (transactionNum : ℕ) (sim : Similator S) :
    Except Panic (Executed S) := do
  splitAtMut sim.accounts 1
  let accNums := sim.accounts.length - 1
  runBlocks env
    (.ok (0, .kittyInitialize) ::
      (kittyMints (genes true) true accNums ++ kittyMints (genes false) false accNums))
    ((List.range transactionNum).map fun k => do
      let m ← genRange 0 accNums (rand k 0)
      let s ← genRange accNums (accNums * 2) (rand k 1)
      let senderIndex ← genRange 0 accNums (rand k 2)
      .ok (1 + senderIndex, .kittyBreed 0 m s false))
    sim

/-- `run_empty(transaction_nums)`, which has no first block. -/
def runEmpty (rand : ℕ → ℕ → ℕ) (transactionNums : ℕ) (sim : Similator S) :
    Except Panic (Executed S) := do
  let accNums := sim.accounts.length
  let (accounts, benchmark) ← sendAll env
    ((List.range transactionNums).map fun k => do
      let sender ← genRange 0 accNums (rand k 0)
      .ok (sender, .empty))
    sim.accounts []
  let _ ← executeBlockstmBenchmark env true true env.numCpus none benchmark sim.stateView
  .ok ⟨[], benchmark, ⟨accounts, sim.stateView⟩⟩

/-- A workload, with the numbers that are drawn in it. -/
inductive Workload where
  /-- `run_airdrop`. -/
  | airdrop (rand : ℕ → ℕ → ℕ) (transactionNums : ℕ)
  /-- `run_ballot`. -/
  | ballot (rand : ℕ → ℕ → ℕ) (transactionNum : ℕ)
  /-- `run_ballot_sharding`. -/
  | ballotSharding (rand : ℕ → ℕ → ℕ) (transactionNum shardNum : ℕ)
  /-- `run_mp`. -/
  | mp (rand : ℕ → ℕ → ℕ) (transactionNum : ℕ)
  /-- `run_kitty`. -/
  | kitty (genes : Bool → ℕ → ℕ) (rand : ℕ → ℕ → ℕ) (transactionNum : ℕ)
  /-- `run_empty`. -/
  | empty (rand : ℕ → ℕ → ℕ) (transactionNums : ℕ)

/-- Run a workload. -/
def runWorkload : Workload → Similator S → Except Panic (Executed S)
  | .airdrop rand transactionNums => runAirdrop env rand transactionNums
  | .ballot rand transactionNum => runBallot env rand transactionNum
  | .ballotSharding rand transactionNum shardNum =>
    runBallotSharding env rand transactionNum shardNum
  | .mp rand transactionNum => runMp env rand transactionNum
  | .kitty genes rand transactionNum => runKitty env genes rand transactionNum
  | .empty rand transactionNums => runEmpty env rand transactionNums

/-- The senders of the block that initializes, with `n` accounts. -/
def Workload.initializers (n : ℕ) : Workload → List ℕ
  | .airdrop _ _ => List.range n
  | .ballot _ _ => [0]
  | .ballotSharding _ _ shardNum => List.range shardNum
  | .mp _ _ => [0]
  | .kitty _ _ _ => 0 :: ((List.range (n - 1)).map (1 + ·) ++ (List.range (n - 1)).map (1 + ·))
  | .empty _ _ => []

/-- The senders of the block of the benchmark, as they are drawn from `n` accounts. -/
def Workload.senders (n : ℕ) : Workload → List ℕ
  | .airdrop rand transactionNums => (List.range transactionNums).map fun k => rand k 0 % n
  | .ballot rand transactionNum =>
    (List.range transactionNum).map fun k => 1 + rand k 1 % (n - 1)
  | .ballotSharding rand transactionNum shardNum =>
    (List.range transactionNum).map fun k => shardNum + rand k 1 % (n - shardNum)
  | .mp rand transactionNum => (List.range transactionNum).map fun k => 1 + rand k 2 % (n - 1)
  | .kitty _ rand transactionNum =>
    (List.range transactionNum).map fun k => 1 + rand k 2 % (n - 1)
  | .empty rand transactionNums => (List.range transactionNums).map fun k => rand k 0 % n

/-! ### The replay -/

/-- The sequence number of a sender in `seq_map`: one more than the last, or that of the account. -/
def nextInMap (seqMap : ℕ → Option ℕ) (i sequenceNumber : ℕ) : Except Panic ℕ :=
  match seqMap i with
  | some last => faultAs .overflow (addU env.overflow 64 last 1)
  | none => .ok sequenceNumber

/-- `peer_to_peer_txn(sender, receiver, seq_num, 1, 100)`. -/
def peerToPeerTxn (sender receiver seqNum : ℕ) : SignedTransaction :=
  ⟨sender, .coinTransfer receiver 1, seqNum, 100⟩

/-- The loop of `gen_transaction_for_erc20`. -/
def genLoop (accounts : List ℕ) : List (ℕ × ℕ) → (seqMap : ℕ → Option ℕ) →
    List SignedTransaction → Except Panic (List SignedTransaction)
  | [], _, txns => .ok txns
  | tuple :: graph, seqMap, txns => do
    let sender ← account accounts tuple.1
    let _receiver ← account accounts tuple.2
    let sequenceNumber ← nextInMap env seqMap tuple.1 sender
    let txns ← push env txns (peerToPeerTxn tuple.1 tuple.2 sequenceNumber)
    genLoop accounts graph (Function.update seqMap tuple.1 (some sequenceNumber)) txns

/-- `gen_transaction_for_erc20(transaction_graph)`, which leaves the simulator as it is. -/
def genTransactionForErc20 (graph : List (ℕ × ℕ)) (sim : Similator S) :
    Except Panic (List SignedTransaction) :=
  genLoop env sim.accounts graph (fun _ => none) []

/-- Any number of calls of `gen_transaction_for_erc20`, each followed by the execution of the
block. -/
def replayErc20 (runPar runSeq : Bool) (concurrency : ℕ) (gasLimit : Option ℕ) :
    List (List (ℕ × ℕ)) → Similator S → Except Panic (List (List SignedTransaction))
  | [], _ => .ok []
  | graph :: graphs, sim => do
    let txns ← genTransactionForErc20 env graph sim
    let _ ← executeBlockstmBenchmark env runPar runSeq concurrency gasLimit txns sim.stateView
    let rest ← replayErc20 runPar runSeq concurrency gasLimit graphs sim
    .ok (txns :: rest)

/-! ### The genesis state -/

/-- `setup_gas_cost_stability`: add the accounts to the store, from account `i` on. -/
def addAccounts : (i : ℕ) → List ℕ → S → S
  | _, [], s => s
  | i, sequenceNumber :: data, s => addAccounts (i + 1) data (env.addAccountData i sequenceNumber s)

/-- `Similator::with_account_nums(num_accounts)`, for the universe that the strategy picks. -/
def withAccountNums (u : Universe) : Similator S :=
  ⟨u.sequenceNumbers, addAccounts env 0 u.sequenceNumbers env.headGenesis⟩

theorem sequenceNumber_addAccounts_of_lt {i j : ℕ} (h : j < i) (data : List ℕ) (s : S) :
    env.sequenceNumber (addAccounts env i data s) j = env.sequenceNumber s j := by
  induction data generalizing i s with
  | nil => rfl
  | cons n data ih =>
    rw [addAccounts, ih (Nat.lt_succ_of_lt h), env.sequenceNumber_add,
      Function.update_of_ne (Nat.ne_of_lt h)]

theorem sequenceNumber_addAccounts (i : ℕ) {data : List ℕ} {k n : ℕ} (h : data[k]? = some n)
    (s : S) : env.sequenceNumber (addAccounts env i data s) (i + k) = n := by
  induction data generalizing i k s with
  | nil => cases h
  | cons m data ih =>
    cases k with
    | zero =>
      cases h
      show env.sequenceNumber (addAccounts env (i + 1) data (env.addAccountData i n s)) i = n
      rw [sequenceNumber_addAccounts_of_lt env (Nat.lt_add_one i), env.sequenceNumber_add,
        Function.update_self]
    | succ k =>
      have hshift : i + (k + 1) = i + 1 + k := by omega
      rw [addAccounts, hshift]
      exact ih (i + 1) h _

/-! ### The sequence numbers of a block -/

/-- The counters of the accounts. -/
def counters (accounts : List ℕ) (i : ℕ) : ℕ := accounts[i]?.getD 0

/-- The sequence numbers of an account in a block, in order. -/
def sequenceNumbersOf (i : ℕ) (txns : List SignedTransaction) : List ℕ :=
  numbersOf SignedTransaction.sender SignedTransaction.sequenceNumber i txns

/-- The block `txns` was numbered from the counters `next`, by some of `n` accounts. -/
structure Numbered (n : ℕ) (next : ℕ → ℕ) (txns : List SignedTransaction) (next' : ℕ → ℕ) :
    Prop where
  /-- The numbers. -/
  issued : Issued SignedTransaction.sender SignedTransaction.sequenceNumber (succU 64) next txns
    next'
  /-- The senders. -/
  sender_lt : ∀ txn ∈ txns, txn.sender < n

section Numbered

variable {n : ℕ} {a b c : ℕ → ℕ} {txns txns' new : List SignedTransaction}

theorem Numbered.nil (n : ℕ) (next : ℕ → ℕ) : Numbered n next [] next :=
  ⟨.nil next, fun _ h => absurd h List.not_mem_nil⟩

theorem Numbered.append (h : Numbered n a txns b) (h' : Numbered n b txns' c) :
    Numbered n a (txns ++ txns') c := by
  refine ⟨h.issued.append h'.issued, fun txn htxn => ?_⟩
  rcases List.mem_append.mp htxn with htxn | htxn
  · exact h.sender_lt txn htxn
  · exact h'.sender_lt txn htxn

theorem Numbered.single {txn : SignedTransaction} (hnumber : txn.sequenceNumber = a txn.sender)
    (hlt : txn.sender < n) :
    Numbered n a [txn] (Function.update a txn.sender (succU 64 (a txn.sender))) := by
  refine ⟨.single hnumber, fun txn' htxn' => ?_⟩
  cases List.mem_singleton.mp htxn'
  exact hlt

/-- The numbers of an account that has room for all of them. -/
theorem Numbered.eq_range' (h : Numbered n a txns b) {i s : ℕ} (hs : i < n → s = a i)
    (hfit : i < n → a i + txns.length ≤ 2 ^ 64) :
    sequenceNumbersOf i txns = List.range' s (sequenceNumbersOf i txns).length := by
  have hlen : (sequenceNumbersOf i txns).length ≤ txns.length := by
    rw [sequenceNumbersOf, numbersOf, List.length_map]
    exact List.length_filter_le _ _
  by_cases hi : i < n
  · rw [hs hi]
    refine (h.issued.numbersOf_eq i).trans (iterate_succU_eq_range' ?_)
    exact le_trans (Nat.add_le_add_left hlen _) (hfit hi)
  · have hnil : sequenceNumbersOf i txns = [] := by
      refine List.eq_nil_iff_forall_not_mem.mpr fun x hx => ?_
      obtain ⟨txn, htxn, hsender, -⟩ := mem_numbersOf.mp hx
      exact hi (hsender ▸ h.sender_lt txn htxn)
    rw [hnil]
    rfl

end Numbered

section Blocks

variable {env} {accounts accounts' : List ℕ} {txns txns' : List SignedTransaction}

theorem account_eq_ok {i s : ℕ} : account accounts i = .ok s ↔ accounts[i]? = some s := by
  rw [account.eq_def]
  split
  · simp [*]
  · simp [*]

theorem push_eq_ok {txn : SignedTransaction} :
    push env txns txn = .ok txns' ↔ txns.length < env.capacity ∧ txns' = txns ++ [txn] := by
  rw [push]
  split
  · simp [*, eq_comm]
  · simp [*]

/-- The step lemma. -/
theorem send_spec {i : ℕ} {payload : Payload}
    (h : send env i payload accounts txns = .ok (accounts', txns')) :
    accounts'.length = accounts.length ∧ txns'.length ≤ env.capacity ∧
      ∃ new, txns' = txns ++ new ∧
        Numbered accounts.length (counters accounts) new (counters accounts') := by
  obtain ⟨s, hs, h⟩ := exists_of_bind_eq_ok h
  obtain ⟨next, hnext, h⟩ := exists_of_bind_eq_ok h
  obtain ⟨pushed, hpushed, h⟩ := exists_of_bind_eq_ok h
  cases h
  have hs := account_eq_ok.mp hs
  have hnext := addU_one_eq_ok (faultAs_eq_ok.mp hnext)
  obtain ⟨hcap, rfl⟩ := push_eq_ok.mp hpushed
  have hi : i < accounts.length := (List.getElem?_eq_some_iff.mp hs).1
  have hcounter : counters accounts i = s := by rw [counters, hs, Option.getD_some]
  have hcounters : counters (accounts.set i next) =
      Function.update (counters accounts) i (succU 64 (counters accounts i)) := by
    funext j
    by_cases hj : j = i
    · subst hj
      rw [counters, List.getElem?_set_self hi, Function.update_self, hcounter, ← hnext]
      rfl
    · rw [Function.update_of_ne hj, counters, List.getElem?_set_ne (Ne.symm hj)]
      rfl
  refine ⟨List.length_set, by rw [List.length_append, List.length_singleton]; omega, _, rfl, ?_⟩
  rw [hcounters]
  exact .single hcounter.symm hi

/-- The run lemma, for the loops of the workloads. -/
theorem sendAll_spec {steps : List (Except Panic (ℕ × Payload))}
    (h : sendAll env steps accounts txns = .ok (accounts', txns'))
    (hcap : txns.length ≤ env.capacity) :
    accounts'.length = accounts.length ∧ txns'.length ≤ env.capacity ∧
      ∃ new, txns' = txns ++ new ∧
        Numbered accounts.length (counters accounts) new (counters accounts') := by
  induction steps generalizing accounts txns with
  | nil =>
    cases h
    exact ⟨rfl, hcap, [], (List.append_nil _).symm, .nil _ _⟩
  | cons step steps ih =>
    obtain ⟨⟨i, payload⟩, -, h⟩ := exists_of_bind_eq_ok h
    obtain ⟨⟨accounts₁, txns₁⟩, hsend, h⟩ := exists_of_bind_eq_ok h
    obtain ⟨hlen₁, hcap₁, new₁, rfl, hnew₁⟩ := send_spec hsend
    obtain ⟨hlen, hcap', new, rfl, hnew⟩ := ih h hcap₁
    rw [hlen₁] at hnew
    exact ⟨hlen.trans hlen₁, hcap', new₁ ++ new, List.append_assoc _ _ _, hnew₁.append hnew⟩

/-- A transaction, as the loops decide about it. -/
def SignedTransaction.step (txn : SignedTransaction) : ℕ × Payload := (txn.sender, txn.payload)

/-- A loop that ends has sent what it decided to. -/
theorem steps_of_sendAll {steps : List (Except Panic (ℕ × Payload))}
    (h : sendAll env steps accounts txns = .ok (accounts', txns')) :
    ∃ new, txns' = txns ++ new ∧ steps = (new.map SignedTransaction.step).map .ok := by
  induction steps generalizing accounts txns with
  | nil =>
    cases h
    exact ⟨[], (List.append_nil _).symm, rfl⟩
  | cons step steps ih =>
    obtain ⟨⟨i, payload⟩, hstep, h⟩ := exists_of_bind_eq_ok h
    obtain ⟨⟨accounts₁, txns₁⟩, hsend, h⟩ := exists_of_bind_eq_ok h
    obtain ⟨s, -, hsend⟩ := exists_of_bind_eq_ok hsend
    obtain ⟨next, -, hsend⟩ := exists_of_bind_eq_ok hsend
    obtain ⟨pushed, hpushed, hsend⟩ := exists_of_bind_eq_ok hsend
    cases hsend
    obtain ⟨-, rfl⟩ := push_eq_ok.mp hpushed
    obtain ⟨new, rfl, rfl⟩ := ih h
    exact ⟨⟨i, payload, s, 100⟩ :: new, List.append_assoc _ _ _, by rw [hstep]; rfl⟩

/-- A step that decides about a sender decides about this one. -/
def Sends (step : Except Panic (ℕ × Payload)) (i : ℕ) : Prop :=
  ∀ j payload, step = .ok (j, payload) → j = i

theorem senders_of_sendAll {steps : List (Except Panic (ℕ × Payload))} {senders : List ℕ}
    (hsends : List.Forall₂ Sends steps senders)
    (h : sendAll env steps accounts [] = .ok (accounts', txns)) :
    txns.map SignedTransaction.sender = senders := by
  obtain ⟨new, rfl, rfl⟩ := steps_of_sendAll h
  rw [List.map_map, List.forall₂_map_left_iff] at hsends
  clear h
  induction hsends with
  | nil => rfl
  | cons hstep _ ih => rw [List.map_cons, hstep _ _ rfl, ih]

theorem sends_ok (i : ℕ) (payload : Payload) : Sends (.ok (i, payload)) i := by
  intro j payload' h
  cases h
  rfl

theorem sends_bind {α : Type} {x : Except Panic α} {f : α → Except Panic (ℕ × Payload)} {i : ℕ}
    (h : ∀ a, x = .ok a → Sends (f a) i) : Sends (x >>= f) i := by
  intro j payload hj
  obtain ⟨a, ha, hj⟩ := exists_of_bind_eq_ok hj
  exact h a ha j payload hj

theorem genRange_zero_eq_ok {high k n : ℕ} (h : genRange 0 high k = .ok n) : n = k % high := by
  rw [genRange] at h
  split at h
  · cases h
    exact Nat.zero_add _
  · cases h

/-- The sender is the last that is drawn. -/
theorem sends_genRange (high k : ℕ) (sender : ℕ → ℕ) (payload : ℕ → Payload) :
    Sends (genRange 0 high k >>= fun i => .ok (sender i, payload i)) (sender (k % high)) := by
  refine sends_bind fun i hi => ?_
  rw [genRange_zero_eq_ok hi]
  exact sends_ok _ _

theorem sends_range {f : ℕ → Except Panic (ℕ × Payload)} {g : ℕ → ℕ} (h : ∀ k, Sends (f k) (g k))
    (n : ℕ) : List.Forall₂ Sends ((List.range n).map f) ((List.range n).map g) := by
  rw [List.forall₂_map_left_iff, List.forall₂_map_right_iff]
  exact List.forall₂_same.mpr fun k _ => h k

/-- What a workload has executed is numbered from the counters of the simulator. -/
structure NumberedFrom (env : Env S) (sim : Similator S) (r : Executed S) : Prop where
  /-- The numbers of both blocks. -/
  numbered : Numbered sim.accounts.length (counters sim.accounts) (r.initialized ++ r.benchmark)
    (counters r.similator.accounts)
  /-- Both blocks are in a `Vec`. -/
  length_le : (r.initialized ++ r.benchmark).length ≤ 2 * env.capacity

variable {sim : Similator S} {r : Executed S}

theorem numberedFrom_runBlocks {init bench : List (Except Panic (ℕ × Payload))}
    (h : runBlocks env init bench sim = .ok r) : NumberedFrom env sim r := by
  obtain ⟨⟨accounts₁, initialized⟩, hinit, h⟩ := exists_of_bind_eq_ok h
  obtain ⟨stateView, -, h⟩ := exists_of_bind_eq_ok h
  obtain ⟨⟨accounts₂, benchmark⟩, hbench, h⟩ := exists_of_bind_eq_ok h
  obtain ⟨tps, -, h⟩ := exists_of_bind_eq_ok h
  cases h
  obtain ⟨hlen, hcap, new, rfl, hnew⟩ := sendAll_spec hinit (Nat.zero_le _)
  obtain ⟨-, hcap', new', rfl, hnew'⟩ := sendAll_spec hbench (Nat.zero_le _)
  rw [hlen] at hnew'
  refine ⟨hnew.append hnew', ?_⟩
  dsimp only [List.nil_append] at hcap hcap' ⊢
  rw [List.length_append]
  omega

theorem numberedFrom_runWorkload {w : Workload} (h : runWorkload env w sim = .ok r) :
    NumberedFrom env sim r := by
  cases w with
  | airdrop rand transactionNums => exact numberedFrom_runBlocks h
  | ballot rand transactionNum =>
    obtain ⟨_, -, h⟩ := exists_of_bind_eq_ok h
    exact numberedFrom_runBlocks h
  | ballotSharding rand transactionNum shardNum =>
    obtain ⟨_, -, h⟩ := exists_of_bind_eq_ok h
    exact numberedFrom_runBlocks h
  | mp rand transactionNum =>
    obtain ⟨_, -, h⟩ := exists_of_bind_eq_ok h
    exact numberedFrom_runBlocks h
  | kitty genes rand transactionNum =>
    obtain ⟨_, -, h⟩ := exists_of_bind_eq_ok h
    exact numberedFrom_runBlocks h
  | empty rand transactionNums =>
    obtain ⟨⟨accounts₁, benchmark⟩, hbench, h⟩ := exists_of_bind_eq_ok h
    obtain ⟨tps, -, h⟩ := exists_of_bind_eq_ok h
    cases h
    obtain ⟨-, hcap, new, rfl, hnew⟩ := sendAll_spec hbench (Nat.zero_le _)
    refine ⟨hnew, ?_⟩
    dsimp only [List.nil_append] at hcap ⊢
    omega

theorem senders_runBlocks {init bench : List (Except Panic (ℕ × Payload))} {is bs : List ℕ}
    (h : runBlocks env init bench sim = .ok r) (hinit : List.Forall₂ Sends init is)
    (hbench : List.Forall₂ Sends bench bs) :
    r.initialized.map SignedTransaction.sender = is ∧
      r.benchmark.map SignedTransaction.sender = bs := by
  obtain ⟨⟨accounts₁, initialized⟩, h₁, h⟩ := exists_of_bind_eq_ok h
  obtain ⟨stateView, -, h⟩ := exists_of_bind_eq_ok h
  obtain ⟨⟨accounts₂, benchmark⟩, h₂, h⟩ := exists_of_bind_eq_ok h
  obtain ⟨tps, -, h⟩ := exists_of_bind_eq_ok h
  cases h
  exact ⟨senders_of_sendAll hinit h₁, senders_of_sendAll hbench h₂⟩

theorem sends_initializers (payload : Payload) (n : ℕ) :
    List.Forall₂ Sends ((List.range n).map fun i => .ok (i, payload)) (List.range n) := by
  have h := sends_range (fun i => sends_ok i payload) n
  rw [List.map_id'] at h
  exact h

theorem sends_kittyMints (genes : ℕ → ℕ) (gender : Bool) (n : ℕ) :
    List.Forall₂ Sends (kittyMints genes gender n) ((List.range n).map (1 + ·)) :=
  sends_range (fun i => sends_bind fun _ _ => sends_ok (1 + i) _) n

/-- The senders of both blocks of a workload. -/
theorem senders_runWorkload {w : Workload} (h : runWorkload env w sim = .ok r) :
    r.initialized.map SignedTransaction.sender = w.initializers sim.accounts.length ∧
      r.benchmark.map SignedTransaction.sender = w.senders sim.accounts.length := by
  cases w with
  | airdrop rand transactionNums =>
    refine senders_runBlocks h (sends_initializers _ _) (sends_range (fun k => ?_) _)
    refine sends_bind fun sender hsender => sends_bind fun _ _ => ?_
    rw [genRange_zero_eq_ok hsender]
    exact sends_ok _ _
  | ballot rand transactionNum =>
    obtain ⟨_, -, h⟩ := exists_of_bind_eq_ok h
    refine senders_runBlocks h (.cons (sends_ok 0 _) .nil) (sends_range (fun k => ?_) _)
    exact sends_bind fun _ _ => sends_genRange _ _ _ _
  | ballotSharding rand transactionNum shardNum =>
    obtain ⟨_, -, h⟩ := exists_of_bind_eq_ok h
    refine senders_runBlocks h (sends_initializers _ _) (sends_range (fun k => ?_) _)
    refine sends_bind fun _ _ => sends_bind fun sender hsender => ?_
    rw [genRange_zero_eq_ok hsender]
    dsimp only
    split
    · exact fun _ _ hj => by cases hj
    · exact sends_ok _ _
  | mp rand transactionNum =>
    obtain ⟨_, -, h⟩ := exists_of_bind_eq_ok h
    refine senders_runBlocks h (.cons (sends_ok 0 _) .nil) (sends_range (fun k => ?_) _)
    exact sends_bind fun _ _ => sends_bind fun _ _ => sends_genRange _ _ _ _
  | kitty genes rand transactionNum =>
    obtain ⟨_, -, h⟩ := exists_of_bind_eq_ok h
    have hmints := List.rel_append (sends_kittyMints (genes true) true (sim.accounts.length - 1))
      (sends_kittyMints (genes false) false (sim.accounts.length - 1))
    refine senders_runBlocks h (.cons (sends_ok 0 _) hmints) (sends_range (fun k => ?_) _)
    exact sends_bind fun _ _ => sends_bind fun _ _ => sends_genRange _ _ _ _
  | empty rand transactionNums =>
    obtain ⟨⟨accounts₁, benchmark⟩, hbench, h⟩ := exists_of_bind_eq_ok h
    obtain ⟨tps, -, h⟩ := exists_of_bind_eq_ok h
    cases h
    refine ⟨rfl, senders_of_sendAll (sends_range (fun k => ?_) _) hbench⟩
    exact sends_genRange _ _ _ _

/-- The counters that `seq_map` and the accounts stand for. -/
def mapCounters (accounts : List ℕ) (seqMap : ℕ → Option ℕ) (i : ℕ) : ℕ :=
  match seqMap i with
  | some last => succU 64 last
  | none => counters accounts i

theorem nextInMap_eq_ok {seqMap : ℕ → Option ℕ} {i s n : ℕ} (hs : accounts[i]? = some s)
    (h : nextInMap env seqMap i s = .ok n) : n = mapCounters accounts seqMap i := by
  rw [nextInMap.eq_def] at h
  rw [mapCounters]
  cases hmap : seqMap i with
  | some last =>
    rw [hmap] at h
    exact addU_one_eq_ok (faultAs_eq_ok.mp h)
  | none =>
    rw [hmap] at h
    cases h
    dsimp only
    rw [counters, hs, Option.getD_some]

theorem mapCounters_update (seqMap : ℕ → Option ℕ) (i n : ℕ) :
    mapCounters accounts (Function.update seqMap i (some n)) =
      Function.update (mapCounters accounts seqMap) i (succU 64 n) := by
  funext j
  by_cases hj : j = i
  · rw [hj, mapCounters, Function.update_self, Function.update_self]
  · rw [Function.update_of_ne hj, mapCounters, Function.update_of_ne hj, mapCounters]

/-- The run lemma, for the loop of the replay. -/
theorem genLoop_spec {graph : List (ℕ × ℕ)} {seqMap : ℕ → Option ℕ}
    (h : genLoop env accounts graph seqMap txns = .ok txns') (hcap : txns.length ≤ env.capacity) :
    txns'.length ≤ env.capacity ∧ ∃ new next, txns' = txns ++ new ∧
      new.map SignedTransaction.sender = graph.map Prod.fst ∧
      Numbered accounts.length (mapCounters accounts seqMap) new next := by
  induction graph generalizing seqMap txns with
  | nil =>
    cases h
    exact ⟨hcap, [], _, (List.append_nil _).symm, rfl, .nil _ _⟩
  | cons tuple graph ih =>
    obtain ⟨s, hs, h⟩ := exists_of_bind_eq_ok h
    obtain ⟨receiver, -, h⟩ := exists_of_bind_eq_ok h
    obtain ⟨n, hn, h⟩ := exists_of_bind_eq_ok h
    obtain ⟨pushed, hpushed, h⟩ := exists_of_bind_eq_ok h
    have hs := account_eq_ok.mp hs
    have hn := nextInMap_eq_ok hs hn
    obtain ⟨hlt, rfl⟩ := push_eq_ok.mp hpushed
    have hcap₁ : (txns ++ [peerToPeerTxn tuple.1 tuple.2 n]).length ≤ env.capacity := by
      rw [List.length_append, List.length_singleton]
      omega
    obtain ⟨hcap', new, next, rfl, hsenders, hnew⟩ := ih h hcap₁
    rw [mapCounters_update, hn] at hnew
    refine ⟨hcap', _ :: new, next, List.append_assoc _ _ _, congrArg _ hsenders, ?_⟩
    exact (Numbered.single hn (List.getElem?_eq_some_iff.mp hs).1).append hnew

theorem exists_nextInMap {seqMap : ℕ → Option ℕ} {i s m : ℕ} (hs : s < m)
    (hmap : ∀ last, seqMap i = some last → last < m) (hm : m < 2 ^ 64) :
    ∃ n ≤ m, nextInMap env seqMap i s = .ok n := by
  rw [nextInMap.eq_def]
  cases hi : seqMap i with
  | none => exact ⟨s, Nat.le_of_lt hs, rfl⟩
  | some last =>
    have := hmap last hi
    exact ⟨last + 1, this, faultAs_eq_ok.mpr (addU_of_lt (by omega))⟩

/-- The loop of the replay ends well if the accounts are there, there is room for the block, and the
numbers are below a bound that has room for as many. -/
theorem exists_genLoop {graph : List (ℕ × ℕ)} {seqMap : ℕ → Option ℕ} {m : ℕ}
    (hgraph : ∀ e ∈ graph, e.1 < accounts.length ∧ e.2 < accounts.length)
    (hcap : txns.length + graph.length ≤ env.capacity) (hacc : ∀ s ∈ accounts, s < m)
    (hmap : ∀ i last, seqMap i = some last → last < m) (hfit : m + graph.length ≤ 2 ^ 64) :
    ∃ txns', genLoop env accounts graph seqMap txns = .ok txns' := by
  induction graph generalizing seqMap txns m with
  | nil => exact ⟨txns, rfl⟩
  | cons tuple graph ih =>
    rw [List.length_cons] at hcap hfit
    obtain ⟨hsender, hreceiver⟩ := hgraph tuple List.mem_cons_self
    have hs := account_eq_ok.mpr (List.getElem?_eq_getElem hsender)
    have hreceiver := account_eq_ok.mpr (List.getElem?_eq_getElem hreceiver)
    obtain ⟨n, hn, hnext⟩ : ∃ n ≤ m, nextInMap env seqMap tuple.1 accounts[tuple.1] = .ok n :=
      exists_nextInMap (hacc _ (List.getElem_mem hsender)) (hmap tuple.1) (by omega)
    have hpush : push env txns (peerToPeerTxn tuple.1 tuple.2 n) =
        .ok (txns ++ [peerToPeerTxn tuple.1 tuple.2 n]) :=
      push_eq_ok.mpr ⟨by omega, rfl⟩
    have hcap₁ : (txns ++ [peerToPeerTxn tuple.1 tuple.2 n]).length + graph.length ≤
        env.capacity := by
      rw [List.length_append, List.length_singleton]
      omega
    have hlast : ∀ i last,
        Function.update seqMap tuple.1 (some n) i = some last → last < m + 1 := by
      intro i last hi
      rw [Function.update_apply] at hi
      split at hi
      · cases hi
        omega
      · exact Nat.lt_succ_of_lt (hmap i last hi)
    obtain ⟨txns', h⟩ := ih (fun e he => hgraph e (List.mem_cons_of_mem tuple he)) hcap₁
      (fun s hs => Nat.lt_succ_of_lt (hacc s hs)) hlast (by omega)
    refine ⟨txns', ?_⟩
    rw [genLoop, hs, ok_bind, hreceiver, ok_bind, hnext, ok_bind, hpush, ok_bind]
    exact h

end Blocks

/-! ### Fresh simulators -/

section Fresh

variable {env} {u : Universe}

/-- The genesis state has the numbers of the accounts. -/
theorem sequenceNumber_withAccountNums {i : ℕ} (hi : i < u.sequenceNumbers.length) :
    env.sequenceNumber (withAccountNums env u).stateView i =
      counters (withAccountNums env u).accounts i := by
  have hget := List.getElem?_eq_getElem hi
  have hgenesis := sequenceNumber_addAccounts env 0 hget env.headGenesis
  rw [Nat.zero_add] at hgenesis
  rw [counters, withAccountNums, hget, Option.getD_some]
  exact hgenesis

theorem counters_withAccountNums_lt {i : ℕ} (hi : i < u.sequenceNumbers.length) :
    counters (withAccountNums env u).accounts i < 2 ^ 63 := by
  rw [counters, withAccountNums, List.getElem?_eq_getElem hi, Option.getD_some]
  exact u.lt _ (List.getElem_mem hi)

/-- Blocks that are numbered from the counters of a fresh simulator, and that are not longer than
two `Vec`s, have the numbers from the genesis state on. -/
theorem Numbered.of_fresh {txns : List SignedTransaction} {next : ℕ → ℕ}
    (h : Numbered u.sequenceNumbers.length (counters (withAccountNums env u).accounts) txns next)
    (hlen : txns.length ≤ 2 * env.capacity) (i : ℕ) :
    sequenceNumbersOf i txns =
      List.range' (env.sequenceNumber (withAccountNums env u).stateView i)
        (sequenceNumbersOf i txns).length := by
  refine h.eq_range' sequenceNumber_withAccountNums fun hi => ?_
  have : counters (withAccountNums env u).accounts i < 2 ^ 63 := counters_withAccountNums_lt hi
  have := env.capacity_le
  omega

theorem genTransactionForErc20_fresh {graph : List (ℕ × ℕ)} {txns : List SignedTransaction}
    (h : genTransactionForErc20 env graph (withAccountNums env u) = .ok txns) :
    txns.map SignedTransaction.sender = graph.map Prod.fst ∧ ∀ i, sequenceNumbersOf i txns =
      List.range' (env.sequenceNumber (withAccountNums env u).stateView i)
        (sequenceNumbersOf i txns).length := by
  obtain ⟨hcap, new, next, rfl, hsenders, hnew⟩ := genLoop_spec h (Nat.zero_le _)
  exact ⟨hsenders, hnew.of_fresh (by omega)⟩

end Fresh

/-- **Sequence numbers are gapless.** On a fresh simulator, for any universe and whatever is drawn:
in the two blocks of a workload that does not panic, one after the other, the transactions of each
account have consecutive sequence numbers from that of the genesis state on. The first block has one
transaction for each account that initializes something, the second one for each sender that was
drawn. For a transaction graph between accounts, whose transactions fit into a `Vec`, there is a
block, and in each block of a replay of any number of graphs, with the senders of its graph, the
transactions of each account have consecutive sequence numbers from that of the genesis state
on. -/
theorem sequence_numbers_gapless (u : Universe) :
    (∀ w r, runWorkload env w (withAccountNums env u) = .ok r →
      r.initialized.map SignedTransaction.sender = w.initializers u.sequenceNumbers.length ∧
      r.benchmark.map SignedTransaction.sender = w.senders u.sequenceNumbers.length ∧
      ∀ i, sequenceNumbersOf i (r.initialized ++ r.benchmark) =
        List.range' (env.sequenceNumber (withAccountNums env u).stateView i)
          (sequenceNumbersOf i (r.initialized ++ r.benchmark)).length) ∧
    (∀ graph : List (ℕ × ℕ), graph.length ≤ env.capacity →
      (∀ e ∈ graph, e.1 < u.sequenceNumbers.length ∧ e.2 < u.sequenceNumbers.length) →
      ∃ txns, genTransactionForErc20 env graph (withAccountNums env u) = .ok txns ∧
        txns.map SignedTransaction.sender = graph.map Prod.fst ∧
        ∀ i, sequenceNumbersOf i txns =
          List.range' (env.sequenceNumber (withAccountNums env u).stateView i)
            (sequenceNumbersOf i txns).length) ∧
    ∀ runPar runSeq concurrency gasLimit graphs blocks,
      replayErc20 env runPar runSeq concurrency gasLimit graphs (withAccountNums env u) =
        .ok blocks →
      blocks.map (List.map SignedTransaction.sender) = graphs.map (List.map Prod.fst) ∧
      ∀ block ∈ blocks, ∀ i, sequenceNumbersOf i block =
        List.range' (env.sequenceNumber (withAccountNums env u).stateView i)
          (sequenceNumbersOf i block).length := by
  refine ⟨fun w r h => ?_, fun graph hcap hgraph => ?_, ?_⟩
  · obtain ⟨hinitialized, hbenchmark⟩ := senders_runWorkload h
    have hr := numberedFrom_runWorkload h
    exact ⟨hinitialized, hbenchmark, hr.numbered.of_fresh hr.length_le⟩
  · have := env.capacity_le
    obtain ⟨txns, htxns⟩ : ∃ txns, genTransactionForErc20 env graph (withAccountNums env u) =
        .ok txns :=
      exists_genLoop hgraph (by rw [List.length_nil]; omega) u.lt
        (fun i last hlast => by cases hlast) (by omega)
    exact ⟨txns, htxns, genTransactionForErc20_fresh htxns⟩
  · intro runPar runSeq concurrency gasLimit graphs
    induction graphs with
    | nil =>
      intro blocks h
      cases h
      exact ⟨rfl, fun block hblock => absurd hblock List.not_mem_nil⟩
    | cons graph graphs ih =>
      intro blocks h
      obtain ⟨txns, htxns, h⟩ := exists_of_bind_eq_ok h
      obtain ⟨tps, -, h⟩ := exists_of_bind_eq_ok h
      obtain ⟨rest, hrest, h⟩ := exists_of_bind_eq_ok h
      cases h
      obtain ⟨hsenders, hnumbers⟩ := genTransactionForErc20_fresh htxns
      obtain ⟨ihsenders, ihnumbers⟩ := ih rest hrest
      refine ⟨by rw [List.map_cons, List.map_cons, hsenders, ihsenders], fun block hblock => ?_⟩
      rcases List.mem_cons.mp hblock with rfl | hblock
      · exact hnumbers
      · exact ihnumbers block hblock

/-- The outputs of a VM that looks at nothing but the sequence numbers. -/
def countingOutputs : List SignedTransaction → (ℕ → ℕ) → List (Output (ℕ → ℕ))
  | [], _ => []
  | txn :: txns, s =>
    ⟨s txn.sender = txn.sequenceNumber, fun s => Function.update s txn.sender (s txn.sender + 1)⟩ ::
      countingOutputs txns (Function.update s txn.sender (s txn.sender + 1))

/-- An environment with that VM. -/
def countingEnv : Env (ℕ → ℕ) where
  overflow := .wrap
  capacity := 2 ^ 32
  capacity_le := by decide
  numCpus := 8
  executeBlock _ _ txns s := some (countingOutputs txns s, 1)
  lastByte i := i % 2 ^ 8
  lastByte_lt i := Nat.mod_lt i (Nat.two_pow_pos 8)
  headGenesis _ := 0
  addAccountData i n s := Function.update s i n
  sequenceNumber s := s
  sequenceNumber_add _ _ _ := rfl

/-- A universe of three accounts. -/
def threeAccounts : Universe := ⟨[5, 0, 9], by decide⟩

/-- Three breedings by two accounts, which have minted two kitties each before. -/
theorem sequence_numbers_three_breedings : ∃ r,
    runWorkload countingEnv (.kitty (fun _ i => i) (fun k _ => k) 3)
      (withAccountNums countingEnv threeAccounts) = .ok r ∧
    r.benchmark.map SignedTransaction.sender = [1, 2, 1] ∧
    sequenceNumbersOf 1 (r.initialized ++ r.benchmark) = List.range' 0 4 ∧
    sequenceNumbersOf 2 (r.initialized ++ r.benchmark) = List.range' 9 3 := by
  obtain ⟨r, hr, h1, h2⟩ : ∃ r,
      runWorkload countingEnv (.kitty (fun _ i => i) (fun k _ => k) 3)
        (withAccountNums countingEnv threeAccounts) = .ok r ∧
      (sequenceNumbersOf 1 (r.initialized ++ r.benchmark)).length = 4 ∧
      (sequenceNumbersOf 2 (r.initialized ++ r.benchmark)).length = 3 :=
    ⟨_, rfl, rfl, rfl⟩
  obtain ⟨-, hsenders, hnumbers⟩ := (sequence_numbers_gapless countingEnv threeAccounts).1 _ r hr
  refine ⟨r, hr, hsenders, ?_, ?_⟩
  · have h := hnumbers 1
    rw [h1] at h
    exact h
  · have h := hnumbers 2
    rw [h2] at h
    exact h

end Simulator

end Aptos

end RelayContracts
