import Mathlib.Data.List.AList
import RelayContracts.SequenceNumbers
import RelayContracts.Sui.MillionPixel
import RelayContracts.Sui.MockAccount

/-!
# The ERC20 replay of the Sui benchmark

A second CSV file has the transfers to replay, as rows of two indices. The replay makes one
transaction of each row: the account of the first index spends one of its coins for gas and passes
another one to `transfer_coin`. An account keeps the first half of its coins for gas and the second
half to transfer, and a counter per index says how many of each were used.

Two things are said about it. `replay_uses_once` is about the objects. The counters number the rows
of an index from zero, so no coin is used twice, and the replay ends in a panic only if a row has an
unknown index or an account is out of coins. `coins_moved_iff` is about the owners. `transfer_coin`
has no parameter for a recipient and sends the coin to the sender, so no coin ever moves: the
accounts end up with the coins that the file asks for just in case the file moves none on balance.

## Main definitions

* `generateTx` — `MoveTxGenerator::generate_tx`, for all workloads
* `generateErc20TxFromCsv` — the replay
* `execute` — what transactions do to the coins
-/

namespace RelayContracts

namespace Sui

open SequenceNumbers

/-- A command of a programmable transaction. Objects of other accounts or of no account are given by
what is needed to refer to them. -/
inductive Command (A : Type) where
  /-- A native transfer. -/
  | transferObject (recipient : A) (object : ObjectRef)
  /-- `benchmark::transfer_coin`. -/
  | transferCoin (coin : ObjectRef)
  /-- `benchmark::increment_shared_counter`. -/
  | incrementSharedCounter (counter : ObjectID) (initialSharedVersion : ℕ)
  /-- `benchmark::read_dynamic_fields`. -/
  | readDynamicFields (root : ObjectRef)
  /-- `benchmark::run_computation`. -/
  | runComputation (num : ℕ)
  /-- `KittyBreeding::provide_gene`. -/
  | provideGene (kitty : ObjectRef) (recipient : A)
  /-- `KittyBreeding::breed`. -/
  | breed (gene kitty : ObjectRef)
  /-- `MillionPixel::occupy`. -/
  | land (call : MillionPixel.Transaction A ℕ)
  deriving DecidableEq, Repr

/-- A transaction. -/
structure Tx (A : Type) where
  /-- The sender, who signs it. -/
  sender : A
  /-- The coin that pays for it. -/
  gas : ObjectRef
  /-- The commands. -/
  commands : List (Command A)
  deriving DecidableEq, Repr

/-- `struct MoveTxGenerator`. -/
structure MoveTxGenerator (A : Type) where
  /-- `num_transfers`. -/
  numTransfers : ℕ
  /-- `use_native_transfer`. -/
  useNativeTransfer : Bool
  /-- `computation: u8`. -/
  computation : ℕ
  /-- `root_objects`. -/
  rootObjects : AList fun _ : A => ObjectRef
  /-- `shared_objects`. -/
  sharedObjects : List (ObjectID × ℕ)
  /-- `erc20_transfer`. -/
  erc20Transfer : Bool
  /-- `kitty_objects`. -/
  kittyObjects : AList fun _ : A => ObjectRef
  /-- `land_objects`. -/
  landObjects : MillionPixel.LandObjects ℕ

/-- The keys of `args: HashMap<String, usize>` that are looked up. -/
structure Args where
  /-- `"obj_index"`. -/
  objIndex : Option ℕ
  /-- `"shared_obj_index"`. -/
  sharedObjIndex : Option ℕ
  /-- `"kitty_fn"`. -/
  kittyFn : Option ℕ

variable {A : Type}

/-! ### Generating a transaction -/

/-- `v[i]`. -/
def index {α : Type} (v : List α) (i : ℕ) : Except Panic α :=
  match v[i]? with
  | none => .error .outOfBounds
  | some x => .ok x

/-- `x.unwrap()`. -/
def unwrap {α : Type} : Option α → Except Panic α
  | none => .error .unwrapNone
  | some x => .ok x

/-- The panics of the land workload. -/
def ofLand : MillionPixel.Panic → Panic
  | .overflow => .overflow
  | .remainderByZero => .remainderByZero
  | .unwrapNone => .unwrapNone

section Workloads

variable (gen : MoveTxGenerator A) (account : Account A) (args : Args)

/-- Transfer `num_transfers` objects, to the sender. -/
def transferCommands : Except Panic (List (Command A)) :=
  (List.range' 1 gen.numTransfers).mapM fun i => do
    let object ← index account.gasObjects i
    .ok (if gen.useNativeTransfer then .transferObject account.sender object
      else .transferCoin object)

/-- Increment a shared counter. -/
def sharedCommands : Except Panic (List (Command A)) :=
  if gen.sharedObjects.length > 0 then do
    let (counter, version) ← index gen.sharedObjects (args.sharedObjIndex.getD 0)
    .ok [.incrementSharedCounter counter version]
  else .ok []

/-- The coin of the ERC20 transfer is in the second half of the account's objects. -/
def erc20Commands : Except Panic (List (Command A)) :=
  if gen.erc20Transfer then do
    let objIndex := args.objIndex.getD 0
    let gasNum := account.gasObjects.length
    let object ← index account.gasObjects (gasNum / 2 + objIndex)
    .ok [.transferCoin object]
  else .ok []

/-- Run some computation. -/
def computationCommands : List (Command A) :=
  if gen.computation > 0 then [.runComputation (gen.computation * 100)] else []

/-- Occupy a pixel. -/
def landCommands (p : Overflow) (x y : UInt16) : Except Panic (List (Command A)) :=
  match MillionPixel.generateTx p gen.landObjects account.sender x y with
  | .error e => .error (ofLand e)
  | .ok call => .ok (call.toList.map .land)

variable [DecidableEq A]

/-- Read the dynamic fields of the root object. -/
def rootCommands : Except Panic (List (Command A)) :=
  if gen.rootObjects.keys.length > 0 then do
    let root ← unwrap (gen.rootObjects.lookup account.sender)
    .ok [.readDynamicFields root]
  else .ok []

/-- Provide a gene, or breed with the objects. This is the only place where `to` is used. -/
def kittyCommands (recipient : A) (objects : List ObjectRef) : Except Panic (List (Command A)) :=
  if gen.kittyObjects.keys.length > 0 then do
    let kitty ← unwrap (gen.kittyObjects.lookup account.sender)
    if args.kittyFn.getD 0 = 1 then .ok [.provideGene kitty recipient]
    else do
      let gene ← index objects 0
      let newKitty ← index objects 1
      .ok [.breed gene newKitty]
  else .ok []

/-- `generate_tx(account, to, args, objects)`, at the pixel that was drawn. -/
def generateTx (p : Overflow) (recipient : A) (objects : List ObjectRef) (x y : UInt16) :
    Except Panic (Tx A) := do
  let transfers ← transferCommands gen account
  let shared ← sharedCommands gen args
  let root ← rootCommands gen account
  let erc20 ← erc20Commands gen account args
  let kitty ← kittyCommands gen account args recipient objects
  let land ← landCommands gen account p x y
  let gas ← index account.gasObjects (args.objIndex.getD 0)
  .ok ⟨account.sender, gas,
    transfers ++ shared ++ root ++ computationCommands gen ++ erc20 ++ kitty ++ land⟩

end Workloads

/-! ### The replay -/

/-- What the loop finds out about a record, for the task to capture, and the pixel that the task
draws. -/
structure Request (A : Type) where
  /-- `from_index`. -/
  fromIndex : ℕ
  /-- `from`. -/
  account : Account A
  /-- `to`. -/
  recipient : A
  /-- `"obj_index"`. -/
  objIndex : ℕ
  /-- The pixel. -/
  pixel : UInt16 × UInt16

/-- The loop of `generate_erc20_tx_from_csv`. `objIndexMap` has zero where there is no entry yet. -/
def requests (parse : String → Option ℕ) (c : Created A) :
    (objIndexMap : ℕ → ℕ) → (pixels : ℕ → UInt16 × UInt16) → List (List String) →
      Except Panic (List (Request A))
  | _, _, [] => .ok []
  | objIndexMap, pixels, record :: records => do
    let fromIndex ← parseField parse record 0
    let toIndex ← parseField parse record 1
    let fromAddr ← unwrap (c.accountIndexes fromIndex)
    let account ← unwrap (c.accounts fromAddr)
    let recipient ← unwrap (c.accountIndexes toIndex)
    let objIndex := objIndexMap fromIndex
    let rest ← requests parse c (Function.update objIndexMap fromIndex (objIndex + 1))
      (fun k => pixels (k + 1)) records
    .ok (⟨fromIndex, account, recipient, objIndex, pixels 0⟩ :: rest)

variable [DecidableEq A]

/-- Run the task of a record. -/
def Request.tx (p : Overflow) (gen : MoveTxGenerator A) (r : Request A) : Except Panic (Tx A) :=
  generateTx gen r.account ⟨some r.objIndex, none, none⟩ p r.recipient [] r.pixel.1 r.pixel.2

/-- `generate_erc20_tx_from_csv(tx_generator, erc20_tx_path)`, with the records of the file. The
transactions are in the order in which the tasks have finished. -/
def generateErc20TxFromCsv (p : Overflow) (parse : String → Option ℕ) (gen : MoveTxGenerator A)
    (c : Created A) (finished : Schedule) (pixels : ℕ → UInt16 × UInt16)
    (records : List (List String)) : Except Panic (List (Tx A)) := do
  let rs ← requests parse c (fun _ => 0) pixels records
  (finished.order rs).mapM (Request.tx p gen)

/-! ### Execution -/

/-- The coins that a command transfers, with the new owners. `transfer_coin(coin, ctx)` transfers to
`tx_context::sender(ctx)`. -/
def Command.transfers (sender : A) : Command A → List (ObjectRef × A)
  | .transferObject recipient object => [(object, recipient)]
  | .transferCoin coin => [(coin, sender)]
  | _ => []

/-- The coins that a transaction transfers, with the new owners. -/
def Tx.transfers (tx : Tx A) : List (ObjectRef × A) :=
  tx.commands.flatMap (Command.transfers tx.sender)

/-- The coins that a transaction takes, the one for gas first. -/
def Tx.inputs (tx : Tx A) : List ObjectRef := tx.gas :: tx.transfers.map Prod.fst

/-- The coins of genesis. An object replaces one with the same id. -/
def startingObjects (objects : List (Object A)) : List (Object A) :=
  objects.foldl (fun st o => st.filter (fun o' => o'.id ≠ o.id) ++ [o]) []

/-- A coin after a transaction that takes it has a new version, and a new owner if it was
transferred. -/
def Tx.update (tx : Tx A) (o : Object A) : Object A :=
  if o.computeObjectReference ∈ tx.inputs then
    { o with
      owner := ((tx.transfers.find? fun t => t.1.id = o.id).map Prod.snd).getD o.owner
      version := (tx.inputs.map ObjectRef.version).foldl max 0 + 1 }
  else o

/-- Execute a transaction. It takes different coins of the sender, in the versions that they
have. -/
def execute (tx : Tx A) (st : List (Object A)) : Option (List (Object A)) :=
  if (tx.inputs.map ObjectRef.id).Nodup ∧
      ∀ r ∈ tx.inputs, ∃ o ∈ st, o.computeObjectReference = r ∧ o.owner = tx.sender then
    some (st.map tx.update)
  else none

/-- Execute transactions. -/
def executeAll : List (Tx A) → List (Object A) → Option (List (Object A))
  | [], st => some st
  | tx :: txs, st => do
    let st ← execute tx st
    executeAll txs st

/-- How many coins belong to an address. -/
def coinsOf (a : A) (st : List (Object A)) : ℕ := st.countP fun o => o.owner = a

/-! ### One transaction -/

theorem index_eq_ok {α : Type} {v : List α} {i : ℕ} {x : α} :
    index v i = .ok x ↔ v[i]? = some x := by
  rw [index.eq_def]
  split
  · simp [*]
  · simp [*]

theorem unwrap_eq_ok {α : Type} {o : Option α} {x : α} : unwrap o = .ok x ↔ o = some x := by
  cases o with
  | none => simp [unwrap]
  | some y => simp [unwrap]

/-- The workload of the replay: ERC20 transfers and nothing else. -/
structure MoveTxGenerator.Plain (gen : MoveTxGenerator A) : Prop where
  numTransfers : gen.numTransfers = 0
  computation : gen.computation = 0
  rootObjects : gen.rootObjects = ∅
  sharedObjects : gen.sharedObjects = []
  erc20Transfer : gen.erc20Transfer = true
  kittyObjects : gen.kittyObjects = ∅
  landObjects : gen.landObjects = ∅

section Transaction

omit [DecidableEq A]

variable {p : Overflow} {gen : MoveTxGenerator A} {account : Account A} {args : Args}
  {commands : List (Command A)} {x y : UInt16} {sender : A}

theorem transfers_sharedCommands (h : sharedCommands gen args = .ok commands) :
    commands.flatMap (Command.transfers sender) = [] := by
  rw [sharedCommands] at h
  split at h
  · obtain ⟨_, -, h⟩ := exists_of_bind_eq_ok h
    cases h
    rfl
  · cases h
    rfl

theorem transfers_computationCommands :
    (computationCommands gen).flatMap (Command.transfers sender) = [] := by
  rw [computationCommands]
  split <;> rfl

theorem transfers_landCommands (h : landCommands gen account p x y = .ok commands) :
    commands.flatMap (Command.transfers sender) = [] := by
  rw [landCommands.eq_def] at h
  split at h
  · cases h
  · rename_i call _
    cases h
    cases call <;> rfl

variable [DecidableEq A]

theorem transfers_rootCommands (h : rootCommands gen account = .ok commands) :
    commands.flatMap (Command.transfers sender) = [] := by
  rw [rootCommands] at h
  split at h
  · obtain ⟨_, -, h⟩ := exists_of_bind_eq_ok h
    cases h
    rfl
  · cases h
    rfl

theorem transfers_kittyCommands {recipient : A} {objects : List ObjectRef}
    (h : kittyCommands gen account args recipient objects = .ok commands) :
    commands.flatMap (Command.transfers sender) = [] := by
  rw [kittyCommands] at h
  split at h
  · obtain ⟨_, -, h⟩ := exists_of_bind_eq_ok h
    split at h
    · cases h
      rfl
    · obtain ⟨_, -, h⟩ := exists_of_bind_eq_ok h
      obtain ⟨_, -, h⟩ := exists_of_bind_eq_ok h
      cases h
      rfl
  · cases h
    rfl

/-- **What a transaction of the replay takes**: the next coin of each half of the account's coins.
The second one is transferred, to the sender. -/
theorem generateTx_eq_ok {recipient : A} {objects : List ObjectRef} {tx : Tx A}
    (hnum : gen.numTransfers = 0) (herc20 : gen.erc20Transfer = true)
    (h : generateTx gen account args p recipient objects x y = .ok tx) :
    ∃ coin, account.gasObjects[account.gasObjects.length / 2 + args.objIndex.getD 0]? = some coin ∧
      account.gasObjects[args.objIndex.getD 0]? = some tx.gas ∧ tx.sender = account.sender ∧
      tx.transfers = [(coin, account.sender)] := by
  obtain ⟨transfers, htransfers, h⟩ := exists_of_bind_eq_ok h
  obtain ⟨shared, hshared, h⟩ := exists_of_bind_eq_ok h
  obtain ⟨root, hroot, h⟩ := exists_of_bind_eq_ok h
  obtain ⟨erc20, hcoin, h⟩ := exists_of_bind_eq_ok h
  obtain ⟨kitty, hkitty, h⟩ := exists_of_bind_eq_ok h
  obtain ⟨land, hland, h⟩ := exists_of_bind_eq_ok h
  obtain ⟨gas, hgas, h⟩ := exists_of_bind_eq_ok h
  cases h
  rw [transferCommands, hnum] at htransfers
  cases htransfers
  rw [erc20Commands, if_pos herc20] at hcoin
  obtain ⟨coin, hindex, hcoin⟩ := exists_of_bind_eq_ok hcoin
  cases hcoin
  refine ⟨coin, index_eq_ok.mp hindex, index_eq_ok.mp hgas, rfl, ?_⟩
  simp only [Tx.transfers, List.flatMap_append, transfers_sharedCommands hshared,
    transfers_rootCommands hroot, transfers_computationCommands, transfers_kittyCommands hkitty,
    transfers_landCommands hland]
  rfl

/-- Without other workloads, the transaction is there if the coins are. -/
theorem exists_generateTx (hgen : gen.Plain) {recipient : A} {objects : List ObjectRef}
    {coin gas : ObjectRef}
    (hcoin : account.gasObjects[account.gasObjects.length / 2 + args.objIndex.getD 0]? = some coin)
    (hgas : account.gasObjects[args.objIndex.getD 0]? = some gas) :
    ∃ tx, generateTx gen account args p recipient objects x y = .ok tx := by
  have htransfers : transferCommands gen account = .ok [] := by
    rw [transferCommands, hgen.numTransfers]
    rfl
  have hshared : sharedCommands gen args = .ok [] := by
    rw [sharedCommands, hgen.sharedObjects]
    rfl
  have hroot : rootCommands gen account = .ok [] := by
    rw [rootCommands, hgen.rootObjects]
    rfl
  have hkitty : kittyCommands gen account args recipient objects = .ok [] := by
    rw [kittyCommands, hgen.kittyObjects]
    rfl
  have hland : landCommands gen account p x y = .ok [] := by
    rw [landCommands, hgen.landObjects]
    rfl
  have herc20 : erc20Commands gen account args = .ok [.transferCoin coin] := by
    rw [erc20Commands, if_pos hgen.erc20Transfer]
    dsimp only
    rw [index_eq_ok.mpr hcoin, ok_bind]
  rw [generateTx, htransfers, ok_bind, hshared, ok_bind, hroot, ok_bind, herc20, ok_bind, hkitty,
    ok_bind, hland, ok_bind, index_eq_ok.mpr hgas, ok_bind]
  exact ⟨_, rfl⟩

end Transaction

/-! ### The requests -/

/-- The account that a record has in its first field. -/
def Created.senderOf (c : Created A) (parse : String → Option ℕ) (record : List String) :
    Option A :=
  (parseField parse record 0).toOption.bind c.accountIndexes

/-- The account that a record has in its second field. -/
def Created.recipientOf (c : Created A) (parse : String → Option ℕ) (record : List String) :
    Option A :=
  (parseField parse record 1).toOption.bind c.accountIndexes

/-- A record has an index in its first field. -/
def Sends (parse : String → Option ℕ) (i : ℕ) (record : List String) : Prop :=
  parseField parse record 0 = .ok i

/-- A record has an index in its second field. -/
def Receives (parse : String → Option ℕ) (i : ℕ) (record : List String) : Prop :=
  parseField parse record 1 = .ok i

instance (parse : String → Option ℕ) (i : ℕ) : DecidablePred (Sends parse i) :=
  fun _ => inferInstanceAs (Decidable (_ = _))

instance (parse : String → Option ℕ) (i : ℕ) : DecidablePred (Receives parse i) :=
  fun _ => inferInstanceAs (Decidable (_ = _))

/-- The coins that a request asks for. -/
def Request.objects (r : Request A) : List ObjectRef :=
  r.account.gasObjects[r.objIndex]?.toList ++
    r.account.gasObjects[r.account.gasObjects.length / 2 + r.objIndex]?.toList

/-- A request is what its record says, and its account is that of a task. -/
structure IsRequest (parse : String → Option ℕ) (c : Created A) (ts : List (Task A))
    (record : List String) (r : Request A) : Prop where
  sends : Sends parse r.fromIndex record
  recipient : c.recipientOf parse record = some r.recipient
  sender : c.accountIndexes r.fromIndex = some r.account.sender
  account : ∃ t ∈ ts, t.addrIndex = r.fromIndex ∧ r.account = t.account

section Requests

omit [DecidableEq A]

variable {parse : String → Option ℕ} {c : Created A} {objIndexMap : ℕ → ℕ}
  {pixels : ℕ → UInt16 × UInt16} {record : List String} {records : List (List String)}
  {r : Request A} {rs : List (Request A)} {keyPair : ℕ → A} {rows : List (ℕ × ℕ)}
  {ts : List (Task A)} {admainKeyPair : A}

theorem IsRequest.senderOf_eq (h : IsRequest parse c ts record r) :
    c.senderOf parse record = some r.account.sender := by
  rw [Created.senderOf, h.sends]
  exact h.sender

theorem requests_spec (hc : CreatedFrom c keyPair rows ts admainKeyPair)
    (h : requests parse c objIndexMap pixels records = .ok rs) :
    (∃ next, Issued Request.fromIndex Request.objIndex (· + 1) objIndexMap rs next) ∧
      List.Forall₂ (IsRequest parse c ts) records rs := by
  induction records generalizing objIndexMap pixels rs with
  | nil =>
    cases h
    exact ⟨⟨_, .nil _⟩, .nil⟩
  | cons record records ih =>
    obtain ⟨fromIndex, hfrom, h⟩ := exists_of_bind_eq_ok h
    obtain ⟨toIndex, hto, h⟩ := exists_of_bind_eq_ok h
    obtain ⟨fromAddr, haddr, h⟩ := exists_of_bind_eq_ok h
    obtain ⟨account, haccount, h⟩ := exists_of_bind_eq_ok h
    obtain ⟨recipient, hrecipient, h⟩ := exists_of_bind_eq_ok h
    obtain ⟨rest, hrest, h⟩ := exists_of_bind_eq_ok h
    cases h
    obtain ⟨⟨next, hnext⟩, hrequests⟩ := ih hrest
    have hindex := unwrap_eq_ok.mp haddr
    obtain ⟨t, ht, hti, rfl⟩ := hc.index hindex
    have heq : account = t.account :=
      Option.some.inj ((unwrap_eq_ok.mp haccount).symm.trans (hc.account t ht))
    subst heq
    refine ⟨⟨next, .cons rfl hnext⟩, .cons ⟨hfrom, ?_, hindex, t, ht, hti, rfl⟩ hrequests⟩
    rw [Created.recipientOf, hto]
    exact unwrap_eq_ok.mp hrecipient

/-- There are requests if all accounts are known. -/
theorem exists_requests (hc : CreatedFrom c keyPair rows ts admainKeyPair)
    (hknown : ∀ record ∈ records,
      c.senderOf parse record ≠ none ∧ c.recipientOf parse record ≠ none) :
    ∃ rs, requests parse c objIndexMap pixels records = .ok rs := by
  induction records generalizing objIndexMap pixels with
  | nil => exact ⟨[], rfl⟩
  | cons record records ih =>
    obtain ⟨hsender, hrecipient⟩ := hknown record List.mem_cons_self
    obtain ⟨a, ha⟩ := Option.ne_none_iff_exists'.mp hsender
    obtain ⟨b, hb⟩ := Option.ne_none_iff_exists'.mp hrecipient
    obtain ⟨i, hi, hia⟩ := Option.bind_eq_some_iff.mp ha
    obtain ⟨j, hj, hjb⟩ := Option.bind_eq_some_iff.mp hb
    obtain ⟨t, ht, -, rfl⟩ := hc.index hia
    obtain ⟨rest, hrest⟩ := @ih (Function.update objIndexMap i (objIndexMap i + 1))
      (fun k => pixels (k + 1)) fun record' h => hknown record' (List.mem_cons_of_mem record h)
    refine ⟨⟨i, t.account, b, objIndexMap i, pixels 0⟩ :: rest, ?_⟩
    rw [requests, toOption_eq_some.mp hi, ok_bind, toOption_eq_some.mp hj, ok_bind,
      unwrap_eq_ok.mpr hia, ok_bind, unwrap_eq_ok.mpr (hc.account t ht), ok_bind,
      unwrap_eq_ok.mpr hjb, ok_bind]
    dsimp only
    rw [hrest, ok_bind]

/-- The requests of an index are its records. -/
theorem length_numbersOf (h : List.Forall₂ (IsRequest parse c ts) records rs) (i : ℕ) :
    (numbersOf Request.fromIndex Request.objIndex i rs).length =
      records.countP (Sends parse i) := by
  rw [numbersOf, List.length_map, ← List.countP_eq_length_filter]
  induction h with
  | nil => rfl
  | @cons record r records rs hr _ ih =>
    rw [List.countP_cons, List.countP_cons, ih]
    have hiff : r.fromIndex = i ↔ Sends parse i record :=
      ⟨fun heq => heq ▸ hr.sends, fun hs => Except.ok.inj (hr.sends.symm.trans hs)⟩
    simp [hiff]

end Requests

/-! ### No object is used twice -/

/-- Why a replay panics: a record has an index that does not parse or stands for no account, or
there are more records of an index than the row of its account allows for. -/
def Refused (parse : String → Option ℕ) (c : Created A) (keyPair : ℕ → A) (rows : List (ℕ × ℕ))
    (records : List (List String)) : Prop :=
  (∃ record ∈ records, c.senderOf parse record = none ∨ c.recipientOf parse record = none) ∨
    ∃ j i count, rows[j]? = some (i, count) ∧ c.accountIndexes i = some (keyPair j) ∧
      count < records.countP (Sends parse i)

/-- A request for coins of a task, which has `count` of them for gas and as many to transfer. -/
structure Serves (ts : List (Task A)) (t : Task A) (count : ℕ) (r : Request A) : Prop where
  mem : t ∈ ts
  addrIndex : t.addrIndex = r.fromIndex
  account : r.account = t.account
  objNum : t.objNum = 2 * count

section Objects

variable {p : Overflow} {gen : MoveTxGenerator A} {r r' : Request A} {tx : Tx A} {t t' : Task A}
  {count count' : ℕ} {ts : List (Task A)}

theorem Request.inputs_eq (hnum : gen.numTransfers = 0) (herc20 : gen.erc20Transfer = true)
    (h : r.tx p gen = .ok tx) : tx.inputs = r.objects ∧ tx.sender = r.account.sender := by
  obtain ⟨coin, hcoin, hgas, hsender, htransfers⟩ := generateTx_eq_ok hnum herc20 h
  refine ⟨?_, hsender⟩
  rw [Tx.inputs, htransfers, Request.objects]
  dsimp only [Option.getD_some] at hcoin hgas
  rw [hcoin, hgas]
  rfl

/-- A task that is out of coins serves no request. -/
theorem Serves.lt_of_tx (hs : Serves ts t count r) (hnum : gen.numTransfers = 0)
    (herc20 : gen.erc20Transfer = true) (h : r.tx p gen = .ok tx) : r.objIndex < count := by
  obtain ⟨coin, hcoin, -⟩ := generateTx_eq_ok hnum herc20 h
  have hlt := (List.getElem?_eq_some_iff.mp hcoin).1
  rw [hs.account, length_gasObjects, hs.objNum] at hlt
  dsimp only [Option.getD_some] at hlt
  omega

omit [DecidableEq A] in
theorem Serves.getElem?_gas (hs : Serves ts t count r) (hlt : r.objIndex < count) :
    r.account.gasObjects[r.objIndex]? = some ⟨objectId (t.startingId + r.objIndex), 1⟩ := by
  have := hs.objNum
  rw [hs.account]
  exact getElem?_gasObjects (by omega)

omit [DecidableEq A] in
theorem Serves.getElem?_coin (hs : Serves ts t count r) (hlt : r.objIndex < count) :
    r.account.gasObjects[r.account.gasObjects.length / 2 + r.objIndex]? =
      some ⟨objectId (t.startingId + (count + r.objIndex)), 1⟩ := by
  have := hs.objNum
  have hhalf : t.objNum / 2 = count := by omega
  rw [hs.account, length_gasObjects, hhalf]
  exact getElem?_gasObjects (by omega)

theorem Serves.exists_tx (hs : Serves ts t count r) (hgen : gen.Plain) (hlt : r.objIndex < count) :
    ∃ tx, r.tx p gen = .ok tx :=
  exists_generateTx hgen (hs.getElem?_coin hlt) (hs.getElem?_gas hlt)

omit [DecidableEq A] in
/-- The running numbers of the coins that are asked for. -/
theorem Serves.exists_of_mem (hs : Serves ts t count r) (hlt : r.objIndex < count) {o : ObjectRef}
    (ho : o ∈ r.objects) : ∃ n, (n = r.objIndex ∨ n = count + r.objIndex) ∧
      o = ⟨objectId (t.startingId + n), 1⟩ := by
  rw [Request.objects, hs.getElem?_coin hlt, hs.getElem?_gas hlt] at ho
  rcases List.mem_append.mp ho with ho | ho
  · exact ⟨_, .inl rfl, (Option.some.inj (Option.mem_toList.mp ho)).symm⟩
  · exact ⟨_, .inr rfl, (Option.some.inj (Option.mem_toList.mp ho)).symm⟩

section CreatedFrom

variable {c : Created A} {keyPair : ℕ → A} {rows : List (ℕ × ℕ)} {admainKeyPair : A}

omit [DecidableEq A]

/-- The running numbers are below that of the admin. -/
theorem Serves.lt_admainId (hs : Serves ts t count r)
    (hc : CreatedFrom c keyPair rows ts admainKeyPair) (htotal : total rows < admainId - 1) {n : ℕ}
    (hn : n < 2 * count) : t.startingId + n < admainId := by
  have := range_of_mem_tasks (hc.perm.mem_iff.mp hs.mem)
  have := hs.objNum
  omega

/-- Requests that differ in the index or in the number ask for different coins. -/
theorem objects_disjoint (hc : CreatedFrom c keyPair rows ts admainKeyPair)
    (htotal : total rows < admainId - 1) (hs : Serves ts t count r)
    (hs' : Serves ts t' count' r') (hlt : r.objIndex < count) (hlt' : r'.objIndex < count')
    (hne : r.fromIndex ≠ r'.fromIndex ∨ r.objIndex ≠ r'.objIndex) :
    List.Disjoint (r.objects.map ObjectRef.id) (r'.objects.map ObjectRef.id) := by
  intro id hid hid'
  obtain ⟨o, ho, rfl⟩ := List.mem_map.mp hid
  obtain ⟨o', ho', heq⟩ := List.mem_map.mp hid'
  obtain ⟨n, hn, rfl⟩ := hs.exists_of_mem hlt ho
  obtain ⟨n', hn', rfl⟩ := hs'.exists_of_mem hlt' ho'
  have hbig : admainId < 2 ^ 64 := by decide
  have hid := hs.lt_admainId hc htotal (n := n) (by omega)
  have hid' := hs'.lt_admainId hc htotal (n := n') (by omega)
  have hsame := objectId_inj (by omega) (by omega) heq
  by_cases htt : t = t'
  · subst htt
    have := hs.objNum
    have := hs'.objNum
    have := hs.addrIndex
    have := hs'.addrIndex
    omega
  · have := hc.disjoint hs.mem hs'.mem htt
    have := hs.objNum
    have := hs'.objNum
    omega

/-- The coins of one request are different. -/
theorem Serves.nodup_objects (hs : Serves ts t count r)
    (hc : CreatedFrom c keyPair rows ts admainKeyPair) (htotal : total rows < admainId - 1)
    (hlt : r.objIndex < count) : (r.objects.map ObjectRef.id).Nodup := by
  have hbig : admainId < 2 ^ 64 := by decide
  have hgas := hs.lt_admainId hc htotal (n := r.objIndex) (by omega)
  have hcoin := hs.lt_admainId hc htotal (n := count + r.objIndex) (by omega)
  rw [Request.objects, hs.getElem?_coin hlt, hs.getElem?_gas hlt]
  have hne : objectId (t.startingId + r.objIndex) ≠
      objectId (t.startingId + (count + r.objIndex)) := by
    intro heq
    have := objectId_inj (by omega) (by omega) heq
    omega
  simpa using hne

/-- The coins belong to the account. -/
theorem Serves.mem_genesis (hs : Serves ts t count r)
    (hc : CreatedFrom c keyPair rows ts admainKeyPair) (hlt : r.objIndex < count) {o : ObjectRef}
    (ho : o ∈ r.objects) : ∃ obj ∈ c.genesisGasObjects, obj.computeObjectReference = o ∧
      obj.owner = r.account.sender := by
  obtain ⟨n, hn, rfl⟩ := hs.exists_of_mem hlt ho
  have := hs.objNum
  refine ⟨newGasObject (t.startingId + n) t.sender, ?_, rfl, by rw [hs.account]; rfl⟩
  rw [hc.genesis]
  refine List.mem_append_left _ (List.mem_flatMap.mpr ⟨t, hs.mem, List.mem_map.mpr ⟨_, ?_, rfl⟩⟩)
  rw [List.mem_range'_1]
  omega

/-- A request of the replay is served by the task of its account. -/
theorem IsRequest.exists_serves {parse : String → Option ℕ} {record : List String}
    (hr : IsRequest parse c ts record r) (hc : CreatedFrom c keyPair rows ts admainKeyPair) :
    ∃ t j count, Serves ts t count r ∧ rows[j]? = some (r.fromIndex, count) ∧
      r.account.sender = keyPair j := by
  obtain ⟨t, ht, hindex, haccount⟩ := hr.account
  obtain ⟨j, count, hrow, hsender, hnum⟩ := exists_row_of_mem_tasks (hc.perm.mem_iff.mp ht)
  rw [Nat.zero_add] at hsender
  refine ⟨t, j, count, ⟨ht, hindex, haccount, hnum⟩, hindex ▸ hrow, ?_⟩
  rw [haccount]
  exact hsender

end CreatedFrom

end Objects

section Replay

variable {p : Overflow} {parse : String → Option ℕ} {gen : MoveTxGenerator A} {c : Created A}
  {keyPair : ℕ → A} {rows : List (ℕ × ℕ)} {ts : List (Task A)} {admainKeyPair : A}
  {finished : Schedule} {pixels : ℕ → UInt16 × UInt16} {records : List (List String)}
  {rs : List (Request A)} {txs : List (Tx A)}

omit [DecidableEq A] in
theorem senders_eq (h : List.Forall₂ (IsRequest parse c ts) records rs) :
    rs.map (fun r => some r.account.sender) = records.map (c.senderOf parse) := by
  induction h with
  | nil => rfl
  | @cons record r records rs hrequest _ ih =>
    rw [List.map_cons, List.map_cons, ih, hrequest.senderOf_eq]

/-- A replay that did not panic has served all requests. -/
theorem served_of_replay (hc : CreatedFrom c keyPair rows ts admainKeyPair)
    (hnum : gen.numTransfers = 0) (herc20 : gen.erc20Transfer = true)
    (hrequests : List.Forall₂ (IsRequest parse c ts) records rs)
    (htxs : (finished.order rs).mapM (Request.tx p gen) = .ok txs) {r : Request A} (hr : r ∈ rs) :
    ∃ t j count, Serves ts t count r ∧ rows[j]? = some (r.fromIndex, count) ∧
      r.account.sender = keyPair j ∧ r.objIndex < count := by
  obtain ⟨record, -, hrecord⟩ := exists_left_of_mem hrequests hr
  obtain ⟨t, j, count, hs, hrow, hkey⟩ := hrecord.exists_serves hc
  obtain ⟨tx, -, htx⟩ := exists_eq_ok_of_mapM_eq_ok htxs ((finished.perm rs).mem_iff.mpr hr)
  exact ⟨t, j, count, hs, hrow, hkey, hs.lt_of_tx hnum herc20 htx⟩

/-- The transactions of a replay use different coins. -/
theorem nodup_of_replay (hc : CreatedFrom c keyPair rows ts admainKeyPair)
    (htotal : total rows < admainId - 1) (hnum : gen.numTransfers = 0)
    (herc20 : gen.erc20Transfer = true)
    (hrequests : List.Forall₂ (IsRequest parse c ts) records rs) {next : ℕ → ℕ}
    (hissued : Issued Request.fromIndex Request.objIndex (· + 1) (fun _ => 0) rs next)
    (htxs : (finished.order rs).mapM (Request.tx p gen) = .ok txs) :
    ((txs.flatMap Tx.inputs).map ObjectRef.id).Nodup := by
  have hinputs : txs.map (fun tx => tx.inputs.map ObjectRef.id) =
      (finished.order rs).map fun r => r.objects.map ObjectRef.id :=
    map_eq_of_mapM_eq_ok htxs fun r tx h => by rw [(Request.inputs_eq hnum herc20 h).1]
  have hserved := fun r hr => served_of_replay (r := r) hc hnum herc20 hrequests htxs hr
  rw [List.map_flatMap, List.flatMap_def, hinputs, ← List.flatMap_def,
    ((finished.perm rs).flatMap_right _).nodup_iff, List.nodup_flatMap]
  constructor
  · intro r hr
    obtain ⟨t, j, count, hs, -, -, hlt⟩ := hserved r hr
    exact hs.nodup_objects hc htotal hlt
  · refine hissued.pairwise_ne.imp_of_mem fun {r r'} hr hr' hne => ?_
    obtain ⟨t, j, count, hs, -, -, hlt⟩ := hserved r hr
    obtain ⟨t', j', count', hs', -, -, hlt'⟩ := hserved r' hr'
    exact objects_disjoint hc htotal hs hs' hlt hlt' hne

/-- The number of an index is among those of its records. -/
theorem count_le_of_replay (hc : CreatedFrom c keyPair rows ts admainKeyPair)
    (hkeys : Function.Injective keyPair) (hnum : gen.numTransfers = 0)
    (herc20 : gen.erc20Transfer = true)
    (hrequests : List.Forall₂ (IsRequest parse c ts) records rs) {next : ℕ → ℕ}
    (hissued : Issued Request.fromIndex Request.objIndex (· + 1) (fun _ => 0) rs next)
    (htxs : (finished.order rs).mapM (Request.tx p gen) = .ok txs) {i j count : ℕ}
    (hrow : rows[j]? = some (i, count)) (hindex : c.accountIndexes i = some (keyPair j)) :
    records.countP (Sends parse i) ≤ count := by
  by_contra hgt
  -- The record that is one too many has the number `count`.
  have hmem : count ∈ numbersOf Request.fromIndex Request.objIndex i rs := by
    rw [hissued.numbersOf_eq_range', length_numbersOf hrequests, List.mem_range'_1]
    omega
  obtain ⟨r, hr, rfl, hcount⟩ := mem_numbersOf.mp hmem
  obtain ⟨t, j', count', hs, hrow', hkey, hlt⟩ :=
    served_of_replay hc hnum herc20 hrequests htxs hr
  obtain ⟨record, -, hrecord⟩ := exists_left_of_mem hrequests hr
  have hj : j' = j := hkeys (hkey.symm.trans
    (Option.some.inj (hrecord.sender.symm.trans hindex)))
  rw [hj, hrow] at hrow'
  cases hrow'
  omega

/-- A replay panics for the reasons of `Refused` only, if there is no other workload. -/
theorem exists_error_iff (hc : CreatedFrom c keyPair rows ts admainKeyPair)
    (hkeys : Function.Injective keyPair) (hgen : gen.Plain) :
    (∃ e, generateErc20TxFromCsv p parse gen c finished pixels records = .error e) ↔
      Refused parse c keyPair rows records := by
  constructor
  · rintro ⟨e, he⟩
    by_contra hnot
    rw [Refused, not_or] at hnot
    obtain ⟨hknown, hcounts⟩ := hnot
    obtain ⟨rs, hrs⟩ : ∃ rs, requests parse c (fun _ => 0) pixels records = .ok rs := by
      refine exists_requests hc fun record hr => ⟨?_, ?_⟩
      · exact fun hnone => hknown ⟨record, hr, .inl hnone⟩
      · exact fun hnone => hknown ⟨record, hr, .inr hnone⟩
    obtain ⟨⟨next, hissued⟩, hrequests⟩ := requests_spec hc hrs
    have hall : ∀ r ∈ finished.order rs, ∃ tx, r.tx p gen = .ok tx := by
      intro r hr
      have hr := (finished.perm rs).mem_iff.mp hr
      obtain ⟨record, -, hrecord⟩ := exists_left_of_mem hrequests hr
      obtain ⟨t, j, count, hs, hrow, hkey⟩ := hrecord.exists_serves hc
      refine hs.exists_tx hgen ?_
      have hmem : r.objIndex ∈ numbersOf Request.fromIndex Request.objIndex r.fromIndex rs :=
        mem_numbersOf.mpr ⟨r, hr, rfl, rfl⟩
      rw [hissued.numbersOf_eq_range', length_numbersOf hrequests, List.mem_range'_1] at hmem
      by_contra hge
      exact hcounts ⟨j, r.fromIndex, count, hrow, hkey ▸ hrecord.sender, by omega⟩
    obtain ⟨txs, htxs⟩ := exists_mapM_eq_ok hall
    rw [generateErc20TxFromCsv, hrs, ok_bind, htxs] at he
    cases he
  · intro href
    cases hgenerate : generateErc20TxFromCsv p parse gen c finished pixels records with
    | error e => exact ⟨e, rfl⟩
    | ok txs =>
      obtain ⟨rs, hrs, htxs⟩ := exists_of_bind_eq_ok hgenerate
      obtain ⟨⟨next, hissued⟩, hrequests⟩ := requests_spec hc hrs
      rcases href with ⟨record, hrecord, hnone⟩ | ⟨j, i, count, hrow, hindex, hlt⟩
      · obtain ⟨r, -, hr⟩ := exists_right_of_mem hrequests hrecord
        rw [hr.senderOf_eq, hr.recipient] at hnone
        simp at hnone
      · have := count_le_of_replay hc hkeys hgen.numTransfers hgen.erc20Transfer hrequests hissued
          htxs hrow hindex
        omega

end Replay

/-- **The replay uses no object twice.** For accounts from a file whose rows parse and ask for fewer
coins than the id of the admin's coin allows for, with different key pairs, all coins of genesis
have different ids. If the replay returns transactions, there is one from the account of each
record, all coins that they take for gas or to transfer are different from each other and from the
coin of the admin, and each belongs to the sender. With no other workload, the replay panics if and
only if an index is unknown or an account sends more often than its row says. -/
theorem replay_uses_once (p : Overflow) (parse : String → Option ℕ) {keyPair : ℕ → A}
    (hkeys : Function.Injective keyPair) (admainKeyPair : A) (awaited finished : Schedule)
    {accounts : List (List String)} {rows : List (ℕ × ℕ)} (hrows : ParsesTo parse accounts rows)
    (htotal : total rows < 10 ^ 16 - 1) {gen : MoveTxGenerator A} (hnum : gen.numTransfers = 0)
    (herc20 : gen.erc20Transfer = true) (pixels : ℕ → UInt16 × UInt16)
    (records : List (List String)) :
    ∃ c, batchCreateAccountAndGasByIndex p parse keyPair admainKeyPair awaited accounts = .ok c ∧
      (c.genesisGasObjects.map Object.id).Nodup ∧
      (∀ i, (c.accountIndexes i).isSome ↔ i ∈ rows.map Prod.fst) ∧
      (∀ txs, generateErc20TxFromCsv p parse gen c finished pixels records = .ok txs →
        (txs.map fun tx => some tx.sender).Perm (records.map (c.senderOf parse)) ∧
        ((txs.flatMap Tx.inputs).map ObjectRef.id).Nodup ∧
        ∀ tx ∈ txs, ∀ o ∈ tx.inputs,
          (∃ obj ∈ c.genesisGasObjects, obj.computeObjectReference = o ∧
            obj.owner = tx.sender) ∧
          ∀ gas ∈ c.admain.gasObjects, o.id ≠ gas.id) ∧
      (gen.Plain → ((∃ e, generateErc20TxFromCsv p parse gen c finished pixels records = .error e) ↔
        Refused parse c keyPair rows records)) := by
  have htotal : total rows < admainId - 1 := htotal
  obtain ⟨c, ts, hcreate, hc⟩ := created_of_rows (p := p) hkeys admainKeyPair awaited hrows htotal
  refine ⟨c, hcreate, hc.nodup_genesis htotal, hc.known, fun txs h => ?_, exists_error_iff hc hkeys⟩
  obtain ⟨rs, hrs, htxs⟩ := exists_of_bind_eq_ok h
  obtain ⟨⟨next, hissued⟩, hrequests⟩ := requests_spec hc hrs
  refine ⟨?_, nodup_of_replay hc htotal hnum herc20 hrequests hissued htxs, fun tx htx o ho => ?_⟩
  · have hsenders : txs.map (fun tx => some tx.sender) =
        (finished.order rs).map fun r => some r.account.sender :=
      map_eq_of_mapM_eq_ok htxs fun r tx h => by rw [(Request.inputs_eq hnum herc20 h).2]
    rw [hsenders, ← senders_eq hrequests]
    exact (finished.perm rs).map _
  · obtain ⟨r, hr, hrtx⟩ := exists_mem_of_mapM_eq_ok htxs htx
    obtain ⟨t, j, count, hs, -, -, hlt⟩ :=
      served_of_replay hc hnum herc20 hrequests htxs ((finished.perm rs).mem_iff.mp hr)
    obtain ⟨hinputs, hsender⟩ := Request.inputs_eq hnum herc20 hrtx
    rw [hinputs] at ho
    refine ⟨?_, fun gas hgas heq => ?_⟩
    · rw [hsender]
      exact hs.mem_genesis hc hlt ho
    · rw [hc.admain] at hgas
      cases List.mem_singleton.mp hgas
      obtain ⟨n, hn, rfl⟩ := hs.exists_of_mem hlt ho
      have hbig : admainId < 2 ^ 64 := by decide
      have hid := hs.lt_admainId hc htotal (n := n) (by omega)
      have := objectId_inj (by omega) hbig heq
      omega

/-- Tasks that are awaited in the order in which they were spawned. -/
def Schedule.inOrder : Schedule := ⟨fun l => l, fun l => .refl l⟩

/-- The generator of the replay. -/
def erc20Generator (A : Type) : MoveTxGenerator A := ⟨0, false, 0, ∅, [], true, ∅, ∅⟩

theorem plain_erc20Generator (A : Type) : (erc20Generator A).Plain :=
  ⟨rfl, rfl, rfl, rfl, rfl, rfl, rfl⟩

/-- `str::parse::<u64>`, for the digits `0` and `1`. -/
def parseBit (s : String) : Option ℕ :=
  if s = "0" then some 0 else if s = "1" then some 1 else none

/-- Two accounts that send once to each other. -/
theorem replay_uses_once_exchange : ∃ (c : Created ℕ) (txs : List (Tx ℕ)),
    batchCreateAccountAndGasByIndex .trap parseBit id 100 .inOrder [["0", "1"], ["1", "1"]] =
      .ok c ∧
    generateErc20TxFromCsv .trap parseBit (erc20Generator ℕ) c .inOrder (fun _ => (0, 0))
      [["0", "1"], ["1", "0"]] = .ok txs ∧
    txs.map Tx.sender = [0, 1] ∧ ((txs.flatMap Tx.inputs).map ObjectRef.id).Nodup := by
  have hrows : ParsesTo parseBit [["0", "1"], ["1", "1"]] [(0, 1), (1, 1)] :=
    .cons ⟨rfl, rfl⟩ (.cons ⟨rfl, rfl⟩ .nil)
  obtain ⟨c, hc, -, -, hok, -⟩ := replay_uses_once .trap parseBit Function.injective_id 100
    .inOrder .inOrder hrows (by decide) (plain_erc20Generator ℕ).numTransfers
    (plain_erc20Generator ℕ).erc20Transfer (fun _ => (0, 0)) [["0", "1"], ["1", "0"]]
  obtain ⟨c', hc', txs, htxs, hsenders⟩ : ∃ c',
      batchCreateAccountAndGasByIndex .trap parseBit id 100 .inOrder [["0", "1"], ["1", "1"]] =
        .ok c' ∧
      ∃ txs, generateErc20TxFromCsv .trap parseBit (erc20Generator ℕ) c' .inOrder
        (fun _ => (0, 0)) [["0", "1"], ["1", "0"]] = .ok txs ∧ txs.map Tx.sender = [0, 1] :=
    ⟨_, rfl, _, rfl, rfl⟩
  cases hc.symm.trans hc'
  exact ⟨c, txs, hc, htxs, hsenders, (hok txs htxs).2.1⟩

/-! ### Where the coins are -/

section Owners

omit [DecidableEq A] in
theorem nodup_startingObjects (objects : List (Object A)) :
    ((startingObjects objects).map Object.id).Nodup := by
  have hfold : ∀ st : List (Object A), (st.map Object.id).Nodup →
      ((objects.foldl (fun st o => st.filter (fun o' => o'.id ≠ o.id) ++ [o]) st).map
        Object.id).Nodup := by
    induction objects with
    | nil => exact fun st hst => hst
    | cons o objects ih =>
      intro st hst
      refine ih _ ?_
      rw [List.map_append, List.nodup_append]
      refine ⟨hst.sublist (List.filter_sublist.map _), List.nodup_singleton _, ?_⟩
      intro i hi j hj heq
      obtain ⟨o', ho', rfl⟩ := List.mem_map.mp hi
      cases List.mem_singleton.mp hj
      simp [heq] at ho'
  exact hfold [] List.nodup_nil

variable {tx : Tx A} {txs : List (Tx A)} {st st' : List (Object A)}

omit [DecidableEq A] in
theorem id_update (tx : Tx A) (o : Object A) : (tx.update o).id = o.id := by
  rw [Tx.update]
  split <;> rfl

omit [DecidableEq A] in
/-- A coin that a transaction takes belongs to the sender. -/
theorem owner_update (hnodup : (st.map Object.id).Nodup)
    (hself : ∀ x ∈ tx.transfers, x.2 = tx.sender)
    (howned : ∀ r ∈ tx.inputs, ∃ o ∈ st, o.computeObjectReference = r ∧ o.owner = tx.sender)
    {o : Object A} (ho : o ∈ st) : (tx.update o).owner = o.owner := by
  rw [Tx.update]
  split
  · rename_i hinput
    obtain ⟨o', ho', href, howner⟩ := howned _ hinput
    have hsame : o' = o :=
      List.inj_on_of_nodup_map hnodup ho' ho (congrArg ObjectRef.id href)
    subst hsame
    dsimp only
    cases hfind : tx.transfers.find? fun x => x.1.id = o'.id with
    | none => rfl
    | some x => exact (hself x (List.mem_of_find?_eq_some hfind)).trans howner.symm
  · rfl

/-- A transaction that transfers to its sender only changes no owner. -/
theorem owner_of_execute (hnodup : (st.map Object.id).Nodup)
    (hself : ∀ x ∈ tx.transfers, x.2 = tx.sender) (h : execute tx st = some st') :
    (st'.map Object.id).Nodup ∧ st'.map Object.owner = st.map Object.owner := by
  rw [execute] at h
  split at h
  · rename_i hvalid
    cases h
    rw [List.map_map, List.map_map]
    constructor
    · have hids : st.map (Object.id ∘ tx.update) = st.map Object.id :=
        List.map_congr_left fun o _ => id_update tx o
      rw [hids]
      exact hnodup
    · exact List.map_congr_left fun o ho => owner_update hnodup hself hvalid.2 ho
  · cases h

/-- The run lemma. -/
theorem owner_of_executeAll (hnodup : (st.map Object.id).Nodup)
    (hself : ∀ tx ∈ txs, ∀ x ∈ tx.transfers, x.2 = tx.sender) (h : executeAll txs st = some st') :
    st'.map Object.owner = st.map Object.owner := by
  induction txs generalizing st with
  | nil =>
    cases h
    rfl
  | cons tx txs ih =>
    obtain ⟨st₁, hst₁, h⟩ := Option.bind_eq_some_iff.mp h
    obtain ⟨hnodup₁, howner⟩ := owner_of_execute hnodup (hself tx List.mem_cons_self) hst₁
    exact (ih hnodup₁ (fun tx' htx' => hself tx' (List.mem_cons_of_mem tx htx')) h).trans howner

end Owners

theorem coinsOf_congr {st st' : List (Object A)}
    (h : st'.map Object.owner = st.map Object.owner) (a : A) : coinsOf a st' = coinsOf a st := by
  have hcount : ∀ st : List (Object A), coinsOf a st = (st.map Object.owner).count a := by
    intro st
    rw [List.count, List.countP_map]
    exact List.countP_congr fun o _ => by simp
  rw [hcount, hcount, h]

/-- **When the replay moves the coins that the file says.** Each account has in the end the coins
that it had, less those for its records as a sender and with those for its records as a recipient,
if and only if each account has as many records as a sender as it has as a recipient. This is so
for any accounts and records, whatever the order in which the transactions are executed. -/
theorem coins_moved_iff {p : Overflow} {parse : String → Option ℕ} {gen : MoveTxGenerator A}
    (hgen : gen.Plain) {c : Created A} {finished executed : Schedule}
    {pixels : ℕ → UInt16 × UInt16} {records : List (List String)} {txs : List (Tx A)}
    (htxs : generateErc20TxFromCsv p parse gen c finished pixels records = .ok txs)
    {st : List (Object A)}
    (hst : executeAll (executed.order txs) (startingObjects c.genesisGasObjects) = some st) :
    (∀ i a, c.accountIndexes i = some a →
      coinsOf a st + records.countP (Sends parse i) =
        coinsOf a (startingObjects c.genesisGasObjects) + records.countP (Receives parse i)) ↔
    ∀ i a, c.accountIndexes i = some a →
      records.countP (Sends parse i) = records.countP (Receives parse i) := by
  have hself : ∀ tx ∈ executed.order txs, ∀ x ∈ tx.transfers, x.2 = tx.sender := by
    intro tx htx x hx
    obtain ⟨rs, -, hrs⟩ := exists_of_bind_eq_ok htxs
    obtain ⟨r, -, hr⟩ := exists_mem_of_mapM_eq_ok hrs ((executed.perm txs).mem_iff.mp htx)
    obtain ⟨coin, -, -, hsender, htransfers⟩ :=
      generateTx_eq_ok hgen.numTransfers hgen.erc20Transfer hr
    rw [htransfers] at hx
    cases List.mem_singleton.mp hx
    exact hsender.symm
  have hcoins := coinsOf_congr (owner_of_executeAll (nodup_startingObjects _) hself hst)
  constructor
  · intro h i a ha
    have := h i a ha
    rw [hcoins] at this
    omega
  · intro h i a ha
    rw [hcoins, h i a ha]

/-- Two accounts that send once to each other. -/
theorem coins_moved_exchange : ∃ (c : Created ℕ) (txs : List (Tx ℕ)) (st : List (Object ℕ)),
    batchCreateAccountAndGasByIndex .trap parseBit id 100 .inOrder [["0", "1"], ["1", "1"]] =
      .ok c ∧
    generateErc20TxFromCsv .trap parseBit (erc20Generator ℕ) c .inOrder (fun _ => (0, 0))
      [["0", "1"], ["1", "0"]] = .ok txs ∧
    executeAll (Schedule.inOrder.order txs) (startingObjects c.genesisGasObjects) = some st ∧
    ∀ i a, c.accountIndexes i = some a →
      coinsOf a st + [["0", "1"], ["1", "0"]].countP (Sends parseBit i) =
        coinsOf a (startingObjects c.genesisGasObjects) +
          [["0", "1"], ["1", "0"]].countP (Receives parseBit i) := by
  obtain ⟨c, hc, txs, htxs, st, hst⟩ : ∃ c,
      batchCreateAccountAndGasByIndex .trap parseBit id 100 .inOrder [["0", "1"], ["1", "1"]] =
        .ok c ∧
      ∃ txs, generateErc20TxFromCsv .trap parseBit (erc20Generator ℕ) c .inOrder
        (fun _ => (0, 0)) [["0", "1"], ["1", "0"]] = .ok txs ∧
      ∃ st, executeAll (Schedule.inOrder.order txs) (startingObjects c.genesisGasObjects) =
        some st :=
    ⟨_, rfl, _, rfl, _, rfl⟩
  refine ⟨c, txs, st, hc, htxs, hst,
    (coins_moved_iff (plain_erc20Generator ℕ) htxs hst).mpr fun i _ _ => ?_⟩
  simp [List.countP_cons, Sends, Receives, parseField, parseBit, Nat.add_comm]

/-- One record from the first account to the second. Both have two coins before and after, and the
second should have three. -/
theorem coin_not_moved : ∃ (c : Created ℕ) (txs : List (Tx ℕ)) (st : List (Object ℕ)),
    batchCreateAccountAndGasByIndex .trap parseBit id 100 .inOrder [["0", "1"], ["1", "1"]] =
      .ok c ∧
    generateErc20TxFromCsv .trap parseBit (erc20Generator ℕ) c .inOrder (fun _ => (0, 0))
      [["0", "1"]] = .ok txs ∧
    executeAll (Schedule.inOrder.order txs) (startingObjects c.genesisGasObjects) = some st ∧
    c.accountIndexes 0 = some 0 ∧ c.accountIndexes 1 = some 1 ∧
    coinsOf 0 (startingObjects c.genesisGasObjects) = 2 ∧
    coinsOf 1 (startingObjects c.genesisGasObjects) = 2 ∧
    coinsOf 0 st = 2 ∧ coinsOf 1 st = 2 ∧
    [["0", "1"]].countP (Sends parseBit 1) = 0 ∧ [["0", "1"]].countP (Receives parseBit 1) = 1 ∧
    coinsOf 1 st + [["0", "1"]].countP (Sends parseBit 1) ≠
      coinsOf 1 (startingObjects c.genesisGasObjects) +
        [["0", "1"]].countP (Receives parseBit 1) := by
  refine ⟨_, _, _, rfl, rfl, rfl, rfl, rfl, rfl, rfl, rfl, rfl, rfl, rfl, ?_⟩
  decide

end Sui

end RelayContracts
