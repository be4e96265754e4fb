import Mathlib.Algebra.GroupWithZero.Nat
import Mathlib.Data.List.Nodup
import Mathlib.Data.List.Pairwise
import Mathlib.Logic.Function.Basic
import RelayContracts.FixedWidth

/-!
# The accounts of the Sui benchmark

The benchmark can take its accounts from a CSV file with rows of an index and a count. Each row
becomes an account with a fresh key pair and twice as many coins as the count says, and the coins
get their object ids from a running number: the first coin of a row follows the last coin of the row
before. The rows are handled by tasks, and the order in which the tasks are awaited is not that of
the file.

`created_of_rows` says what comes of that. The running number has been handed to the tasks when they
were spawned, so the order in which they are awaited only shows in the order of the coins, and in
which account an index stands for that has several rows.

What is not in the sources is a parameter: `parse` is `str::parse::<u64>`, the key pair of the
`k`-th task has the address `keyPair k`, and a `Schedule` is the order in which tasks are awaited.

## Main definitions

* `ObjectID`, `newGasObject` — coins and their ids
* `batchCreateAccountAndGasByIndex` — the accounts, the coins and what the indices stand for
* `tasks` — what the rows become

## Main results

* `created_of_rows` — the accounts of a file whose coins have ids below that of the admin's coin
-/

namespace RelayContracts

namespace Sui

/-- Why the benchmark panicked. -/
inductive Panic where
  /-- An index was out of bounds. -/
  | outOfBounds
  /-- A string did not parse. -/
  | parseError
  /-- An integer overflowed. -/
  | overflow
  /-- `unwrap` of `None`. -/
  | unwrapNone
  /-- The remainder of a division by zero. -/
  | remainderByZero
  deriving DecidableEq, Repr

/-- `ObjectID`. -/
structure ObjectID where
  /-- The bytes. -/
  bytes : List UInt8
  /-- There are `SUI_ADDRESS_LENGTH` of them. -/
  length_bytes : bytes.length = 32
  deriving DecidableEq, Repr

/-- `ObjectRef`. -/
structure ObjectRef where
  /-- The id. -/
  id : ObjectID
  /-- The version. -/
  version : ℕ
  deriving DecidableEq, Repr

/-- `Object`. All objects of the replay are coins. -/
structure Object (A : Type) where
  /-- The id. -/
  id : ObjectID
  /-- The address that the object belongs to. -/
  owner : A
  /-- The version. -/
  version : ℕ
  deriving DecidableEq, Repr

/-- `struct Account`. -/
structure Account (A : Type) where
  /-- `sender: SuiAddress`. -/
  sender : A
  /-- `gas_objects: Arc<Vec<ObjectRef>>`. -/
  gasObjects : List ObjectRef
  deriving DecidableEq, Repr

/-- The order in which tasks are awaited. -/
structure Schedule where
  /-- The tasks in that order. -/
  order : {α : Type} → List α → List α
  /-- All of them are awaited. -/
  perm : ∀ {α : Type} (l : List α), (order l).Perm l

/-- What a task for a row has captured. -/
structure Task (A : Type) where
  /-- `addr_index`. -/
  addrIndex : ℕ
  /-- The address of the key pair that the task generates. -/
  sender : A
  /-- `obj_num`. -/
  objNum : ℕ
  /-- `starting_id`. -/
  startingId : ℕ
  deriving DecidableEq, Repr

/-- What `batch_create_account_and_gas_by_index` returns. -/
structure Created (A : Type) where
  /-- `accounts: BTreeMap<SuiAddress, Account>`. -/
  accounts : A → Option (Account A)
  /-- `genesis_gas_objects: Vec<Object>`. -/
  genesisGasObjects : List (Object A)
  /-- `account_indexes: BTreeMap<u64, SuiAddress>`. -/
  accountIndexes : ℕ → Option A
  /-- `admain: Account`. -/
  admain : Account A

variable {A : Type}

/-! ### The functions -/

/-- `record[k].parse().unwrap()`. -/
def parseField (parse : String → Option ℕ) (record : List String) (k : ℕ) : Except Panic ℕ :=
  match record[k]? with
  | none => .error .outOfBounds
  | some s =>
    match parse s with
    | none => .error .parseError
    | some n => .ok n

/-- `o.compute_object_reference()`. -/
def Object.computeObjectReference (o : Object A) : ObjectRef := ⟨o.id, o.version⟩

/-- The id of `new_gas_object(idx, _)`. -/
def objectId (idx : ℕ) : ObjectID where
  bytes := 255 :: (toLeBytes 8 idx ++ List.replicate 23 0)
  length_bytes := by simp

/-- `new_gas_object(idx, owner)`. -/
def newGasObject (idx : ℕ) (owner : A) : Object A := ⟨objectId idx, owner, 1⟩

/-- `create_gas_objects(sender, num, starting_id)`. -/
def createGasObjects (p : Overflow) (sender : A) (num startingId : ℕ) :
    Except Panic (List (Object A)) :=
  (List.range num).mapM fun i => do
    let idx ← faultAs .overflow (addU p 64 startingId i)
    .ok (newGasObject idx sender)

/-- The first loop of `batch_create_account_and_gas_by_index`: spawn a task for each row. -/
def spawnTasks (p : Overflow) (parse : String → Option ℕ) (keyPair : ℕ → A) :
    (k startingId : ℕ) → List (List String) → Except Panic (List (Task A))
  | _, _, [] => .ok []
  | k, startingId, record :: records => do
    let addrIndex ← parseField parse record 0
    let objNum ← parseField parse record 1
    let objNum ← faultAs .overflow (mulU p 64 objNum 2)
    let task : Task A := ⟨addrIndex, keyPair k, objNum, startingId⟩
    let startingId ← faultAs .overflow (addU p 64 startingId objNum)
    let tasks ← spawnTasks p parse keyPair (k + 1) startingId records
    .ok (task :: tasks)

variable [DecidableEq A]

/-- Enter an account under its index. -/
def Created.enter (c : Created A) (addrIndex : ℕ) (sender : A) (gasObjects : List (Object A)) :
    Created A :=
  let account : Account A := ⟨sender, gasObjects.map Object.computeObjectReference⟩
  { c with
    accounts := Function.update c.accounts sender (some account)
    accountIndexes := Function.update c.accountIndexes addrIndex (some sender)
    genesisGasObjects := c.genesisGasObjects ++ gasObjects }

/-- The second loop: await the tasks. -/
def awaitTasks (p : Overflow) : List (Task A) → Created A → Except Panic (Created A)
  | [], c => .ok c
  | t :: ts, c => do
    let gasObjects ← createGasObjects p t.sender t.objNum t.startingId
    awaitTasks p ts (c.enter t.addrIndex t.sender gasObjects)

/-- `batch_create_account_and_gas_by_index(records)`. The admin gets its account last. -/
def batchCreateAccountAndGasByIndex (p : Overflow) (parse : String → Option ℕ) (keyPair : ℕ → A)
    (admainKeyPair : A) (awaited : Schedule) (records : List (List String)) :
    Except Panic (Created A) := do
  let tasks ← spawnTasks p parse keyPair 0 1 records
  let c ← awaitTasks p (awaited.order tasks)
    ⟨fun _ => none, [], fun _ => none, ⟨admainKeyPair, []⟩⟩
  let admainGasObjects ← createGasObjects p admainKeyPair 1 10000000000000000
  .ok { c with
    admain := ⟨admainKeyPair, admainGasObjects.map Object.computeObjectReference⟩
    genesisGasObjects := c.genesisGasObjects ++ admainGasObjects }

/-! ### Object ids -/

theorem objectId_inj {i j : ℕ} (hi : i < 2 ^ 64) (hj : j < 2 ^ 64) (h : objectId i = objectId j) :
    i = j := by
  have hbytes := congrArg ObjectID.bytes h
  rw [objectId, objectId, List.cons.injEq] at hbytes
  have hle : toLeBytes 8 i = toLeBytes 8 j := List.append_cancel_right hbytes.2
  exact toLeBytes_inj (lt_of_lt_of_eq hi (by decide)) (lt_of_lt_of_eq hj (by decide)) hle

omit [DecidableEq A] in
theorem createGasObjects_eq {p : Overflow} {sender : A} {num startingId : ℕ}
    (h : startingId + num ≤ 2 ^ 64) : createGasObjects p sender num startingId =
      .ok ((List.range' startingId num).map fun idx => newGasObject idx sender) := by
  rw [createGasObjects, mapM_eq_ok, List.range'_eq_map_range, List.map_map,
    List.forall₂_map_right_iff, List.forall₂_same]
  intro i hi
  have hi := List.mem_range.mp hi
  rw [addU_of_lt (by omega), faultAs, ok_bind]
  rfl

/-! ### The rows -/

/-- The rows of a file. -/
def ParsesTo (parse : String → Option ℕ) (records : List (List String)) (rows : List (ℕ × ℕ)) :
    Prop :=
  List.Forall₂ (fun record row =>
    parseField parse record 0 = .ok row.1 ∧ parseField parse record 1 = .ok row.2) records rows

/-- How many coins the rows ask for. -/
def total (rows : List (ℕ × ℕ)) : ℕ := (rows.map fun row => 2 * row.2).sum

/-- What the rows become, from the `k`-th task and a running number on. -/
def tasks (keyPair : ℕ → A) : (k startingId : ℕ) → List (ℕ × ℕ) → List (Task A)
  | _, _, [] => []
  | k, startingId, (addrIndex, count) :: rows =>
    ⟨addrIndex, keyPair k, 2 * count, startingId⟩ ::
      tasks keyPair (k + 1) (startingId + 2 * count) rows

/-- The coins of a task. -/
def Task.objects (t : Task A) : List (Object A) :=
  (List.range' t.startingId t.objNum).map fun idx => newGasObject idx t.sender

/-- The account of a task. -/
def Task.account (t : Task A) : Account A :=
  ⟨t.sender, t.objects.map Object.computeObjectReference⟩

section Rows

omit [DecidableEq A]

variable {p : Overflow} {parse : String → Option ℕ} {keyPair : ℕ → A} {k s : ℕ}
  {records : List (List String)} {rows : List (ℕ × ℕ)}

theorem total_cons (row : ℕ × ℕ) : total (row :: rows) = 2 * row.2 + total rows := by
  rw [total, List.map_cons, List.sum_cons, total]

theorem spawnTasks_eq (hrows : ParsesTo parse records rows) (hfit : s + total rows < 2 ^ 64) :
    spawnTasks p parse keyPair k s records = .ok (tasks keyPair k s rows) := by
  induction hrows generalizing k s with
  | nil => rfl
  | @cons record row records rows hrow _ ih =>
    rw [total_cons] at hfit
    rw [spawnTasks, hrow.1, ok_bind, hrow.2, ok_bind, mulU_of_lt (by omega), faultAs, ok_bind,
      Nat.mul_comm, addU_of_lt (by omega), faultAs, ok_bind, ih (by omega), ok_bind]
    rfl

/-- The running numbers of all rows, one after the other. -/
theorem flatMap_tasks (keyPair : ℕ → A) (k s : ℕ) (rows : List (ℕ × ℕ)) :
    (tasks keyPair k s rows).flatMap (fun t => List.range' t.startingId t.objNum) =
      List.range' s (total rows) := by
  induction rows generalizing k s with
  | nil => rfl
  | cons row rows ih =>
    rw [tasks, List.flatMap_cons, ih, total_cons, List.range'_append_1]

theorem sender_tasks (keyPair : ℕ → A) (k s : ℕ) (rows : List (ℕ × ℕ)) :
    (tasks keyPair k s rows).map Task.sender = (List.range' k rows.length).map keyPair := by
  induction rows generalizing k s with
  | nil => rfl
  | cons row rows ih =>
    rw [tasks, List.map_cons, ih, List.length_cons, List.range'_succ, List.map_cons]

/-- A task is of a row. -/
theorem exists_row_of_mem_tasks {t : Task A} (ht : t ∈ tasks keyPair k s rows) :
    ∃ j count, rows[j]? = some (t.addrIndex, count) ∧ t.sender = keyPair (k + j) ∧
      t.objNum = 2 * count := by
  induction rows generalizing k s with
  | nil => cases ht
  | cons row rows ih =>
    rcases List.mem_cons.mp ht with rfl | ht
    · exact ⟨0, row.2, rfl, rfl, rfl⟩
    · obtain ⟨j, count, hrow, hsender, hnum⟩ := ih ht
      exact ⟨j + 1, count, hrow, by rw [hsender, Nat.add_assoc, Nat.add_comm 1 j], hnum⟩

/-- The running numbers of a task are among those of all rows. -/
theorem range_of_mem_tasks {t : Task A} (ht : t ∈ tasks keyPair k s rows) :
    s ≤ t.startingId ∧ t.startingId + t.objNum ≤ s + total rows := by
  induction rows generalizing k s with
  | nil => cases ht
  | cons row rows ih =>
    rw [total_cons]
    rcases List.mem_cons.mp ht with rfl | ht
    · exact ⟨Nat.le_refl s, by dsimp only; omega⟩
    · have := ih ht
      omega

/-- The running numbers of a row come before those of the rows after it. -/
theorem pairwise_tasks (keyPair : ℕ → A) (k s : ℕ) (rows : List (ℕ × ℕ)) :
    (tasks keyPair k s rows).Pairwise fun t t' => t.startingId + t.objNum ≤ t'.startingId := by
  induction rows generalizing k s with
  | nil => exact .nil
  | cons row rows ih => exact .cons (fun t ht => (range_of_mem_tasks ht).1) (ih _ _)

theorem getElem?_gasObjects {t : Task A} {n : ℕ} (hn : n < t.objNum) :
    t.account.gasObjects[n]? = some ⟨objectId (t.startingId + n), 1⟩ := by
  rw [Task.account, Task.objects, List.map_map, List.getElem?_map, List.getElem?_range' hn,
    Nat.one_mul]
  rfl

theorem length_gasObjects (t : Task A) : t.account.gasObjects.length = t.objNum := by
  rw [Task.account, Task.objects, List.length_map, List.length_map, List.length_range']

end Rows

/-! ### Awaiting -/

/-- What awaiting tasks makes of the accounts. -/
structure Awaited (c c' : Created A) (ts : List (Task A)) : Prop where
  /-- The admin is not concerned. -/
  admain : c'.admain = c.admain
  /-- The coins of the tasks come after those that are there. -/
  genesis : c'.genesisGasObjects = c.genesisGasObjects ++ ts.flatMap Task.objects
  /-- The account of a task. -/
  account : ∀ t ∈ ts, c'.accounts t.sender = some t.account
  /-- Other accounts stay. -/
  other : ∀ a, a ∉ ts.map Task.sender → c'.accounts a = c.accounts a
  /-- What an index stands for. -/
  index : ∀ {i a}, c'.accountIndexes i = some a →
    c.accountIndexes i = some a ∨ ∃ t ∈ ts, t.addrIndex = i ∧ t.sender = a
  /-- Every index of a task stands for something. -/
  known : ∀ i, (c'.accountIndexes i).isSome ↔
    (c.accountIndexes i).isSome ∨ i ∈ ts.map Task.addrIndex

theorem accountIndexes_enter (c : Created A) (addrIndex i : ℕ) (sender : A)
    (gasObjects : List (Object A)) : (c.enter addrIndex sender gasObjects).accountIndexes i =
      if i = addrIndex then some sender else c.accountIndexes i :=
  Function.update_apply _ _ _ _

omit [DecidableEq A] in
theorem Awaited.nil (c : Created A) : Awaited c c [] where
  admain := rfl
  genesis := (List.append_nil _).symm
  account t ht := absurd ht List.not_mem_nil
  other _ _ := rfl
  index := .inl
  known i := by simp

/-- One more task, whose account is none of those that follow. -/
theorem Awaited.cons {c c' : Created A} {t : Task A} {ts : List (Task A)}
    (h : Awaited (c.enter t.addrIndex t.sender t.objects) c' ts)
    (hnew : t.sender ∉ ts.map Task.sender) : Awaited c c' (t :: ts) where
  admain := h.admain
  genesis := by
    rw [h.genesis, List.flatMap_cons, ← List.append_assoc]
    rfl
  account u hu := by
    rcases List.mem_cons.mp hu with rfl | hu
    · exact (h.other _ hnew).trans (Function.update_self _ _ _)
    · exact h.account u hu
  other a ha := by
    rw [List.map_cons, List.mem_cons, not_or] at ha
    exact (h.other a ha.2).trans (Function.update_of_ne ha.1 _ _)
  index := by
    intro i a hi
    rcases h.index hi with hi | ⟨u, hu, heq⟩
    · rw [accountIndexes_enter] at hi
      split at hi
      · rename_i hit
        exact .inr ⟨t, List.mem_cons_self, hit.symm, Option.some.inj hi⟩
      · exact .inl hi
    · exact .inr ⟨u, List.mem_cons_of_mem t hu, heq⟩
  known i := by
    rw [h.known, accountIndexes_enter, List.map_cons, List.mem_cons]
    split
    · simp [*]
    · simp [*]

theorem exists_awaitTasks {p : Overflow} {ts : List (Task A)} (c : Created A)
    (hfit : ∀ t ∈ ts, t.startingId + t.objNum ≤ 2 ^ 64) (hnodup : (ts.map Task.sender).Nodup) :
    ∃ c', awaitTasks p ts c = .ok c' ∧ Awaited c c' ts := by
  induction ts generalizing c with
  | nil => exact ⟨c, rfl, .nil c⟩
  | cons t ts ih =>
    rw [List.map_cons, List.nodup_cons] at hnodup
    obtain ⟨c', hc', hawaited⟩ := ih (c.enter t.addrIndex t.sender t.objects)
      (fun u hu => hfit u (List.mem_cons_of_mem t hu)) hnodup.2
    refine ⟨c', ?_, hawaited.cons hnodup.1⟩
    rw [awaitTasks, createGasObjects_eq (hfit t List.mem_cons_self), ok_bind]
    exact hc'

/-- The id of the admin's coin. -/
def admainId : ℕ := 10000000000000000

/-- The accounts that a file asks for. -/
structure CreatedFrom (c : Created A) (keyPair : ℕ → A) (rows : List (ℕ × ℕ)) (ts : List (Task A))
    (admainKeyPair : A) : Prop where
  /-- The tasks are those of the rows, in some order. -/
  perm : ts.Perm (tasks keyPair 0 1 rows)
  /-- The account of a task. -/
  account : ∀ t ∈ ts, c.accounts t.sender = some t.account
  /-- An index stands for the account of one of its rows. -/
  index : ∀ {i a}, c.accountIndexes i = some a → ∃ t ∈ ts, t.addrIndex = i ∧ t.sender = a
  /-- Every index of a row stands for an account. -/
  known : ∀ i, (c.accountIndexes i).isSome ↔ i ∈ rows.map Prod.fst
  /-- The coins are those of the tasks and that of the admin. -/
  genesis : c.genesisGasObjects =
    ts.flatMap Task.objects ++ [newGasObject admainId admainKeyPair]
  /-- The admin has one coin. -/
  admain : c.admain = ⟨admainKeyPair, [⟨objectId admainId, 1⟩]⟩

theorem addrIndex_tasks {B : Type} (keyPair : ℕ → B) (k s : ℕ) (rows : List (ℕ × ℕ)) :
    (tasks keyPair k s rows).map Task.addrIndex = rows.map Prod.fst := by
  induction rows generalizing k s with
  | nil => rfl
  | cons row rows ih => rw [tasks, List.map_cons, ih, List.map_cons]

/-- **The accounts of a file** whose rows parse, with fewer coins than the id of the admin's coin
allows for. -/
theorem created_of_rows {p : Overflow} {parse : String → Option ℕ} {keyPair : ℕ → A}
    (hkeys : Function.Injective keyPair) (admainKeyPair : A) (awaited : Schedule)
    {records : List (List String)} {rows : List (ℕ × ℕ)} (hrows : ParsesTo parse records rows)
    (htotal : total rows < admainId - 1) :
    ∃ c ts, batchCreateAccountAndGasByIndex p parse keyPair admainKeyPair awaited records = .ok c ∧
      CreatedFrom c keyPair rows ts admainKeyPair := by
  have hbig : admainId + 1 < 2 ^ 64 := by decide
  have hperm := awaited.perm (tasks keyPair 0 1 rows)
  have hnodup : ((awaited.order (tasks keyPair 0 1 rows)).map Task.sender).Nodup := by
    rw [(hperm.map Task.sender).nodup_iff, sender_tasks]
    exact List.Nodup.map hkeys List.nodup_range'
  have hfit : ∀ t ∈ awaited.order (tasks keyPair 0 1 rows), t.startingId + t.objNum ≤ 2 ^ 64 := by
    intro t ht
    have := range_of_mem_tasks (hperm.mem_iff.mp ht)
    omega
  obtain ⟨c, hc, hawaited⟩ := exists_awaitTasks (p := p)
    (⟨fun _ => none, [], fun _ => none, ⟨admainKeyPair, []⟩⟩ : Created A) hfit hnodup
  refine ⟨{ c with
    admain := ⟨admainKeyPair, [⟨objectId admainId, 1⟩]⟩
    genesisGasObjects := c.genesisGasObjects ++ [newGasObject admainId admainKeyPair] },
    awaited.order (tasks keyPair 0 1 rows), ?_, hperm, hawaited.account, ?_, ?_, ?_, rfl⟩
  · rw [batchCreateAccountAndGasByIndex, spawnTasks_eq hrows (by omega), ok_bind, hc, ok_bind,
      createGasObjects_eq (by decide), ok_bind]
    rfl
  · intro i a hi
    rcases hawaited.index hi with hi | hi
    · cases hi
    · exact hi
  · intro i
    refine (hawaited.known i).trans ?_
    rw [(hperm.map Task.addrIndex).mem_iff, addrIndex_tasks]
    simp
  · dsimp only
    rw [hawaited.genesis]
    rfl

section CreatedFrom

omit [DecidableEq A]

variable {c : Created A} {keyPair : ℕ → A} {rows : List (ℕ × ℕ)} {ts : List (Task A)}
  {admainKeyPair : A}

/-- The running numbers of different tasks do not overlap. -/
theorem CreatedFrom.disjoint (hc : CreatedFrom c keyPair rows ts admainKeyPair) {t t' : Task A}
    (ht : t ∈ ts) (ht' : t' ∈ ts) (hne : t ≠ t') :
    t.startingId + t.objNum ≤ t'.startingId ∨ t'.startingId + t'.objNum ≤ t.startingId := by
  have hpair : (tasks keyPair 0 1 rows).Pairwise fun t t' =>
      t.startingId + t.objNum ≤ t'.startingId ∨ t'.startingId + t'.objNum ≤ t.startingId :=
    (pairwise_tasks keyPair 0 1 rows).imp .inl
  have : Std.Symm fun t t' : Task A =>
      t.startingId + t.objNum ≤ t'.startingId ∨ t'.startingId + t'.objNum ≤ t.startingId :=
    ⟨fun _ _ h => h.symm⟩
  exact hpair.forall (hc.perm.mem_iff.mp ht) (hc.perm.mem_iff.mp ht') hne

/-- All coins have different ids. -/
theorem CreatedFrom.nodup_genesis (hc : CreatedFrom c keyPair rows ts admainKeyPair)
    (htotal : total rows < admainId - 1) : (c.genesisGasObjects.map Object.id).Nodup := by
  -- The ids are those of the running numbers of all rows, and of the number of the admin.
  have hids : c.genesisGasObjects.map Object.id =
      (ts.flatMap (fun t => List.range' t.startingId t.objNum) ++ [admainId]).map objectId := by
    rw [hc.genesis, List.map_append, List.map_append, List.map_flatMap, List.map_flatMap]
    simp only [Task.objects, List.map_map]
    rfl
  have hperm : (ts.flatMap (fun t => List.range' t.startingId t.objNum) ++ [admainId]).Perm
      (List.range' 1 (total rows) ++ [admainId]) := by
    rw [← flatMap_tasks keyPair 0 1 rows]
    exact (hc.perm.flatMap_right _).append_right _
  have hbig : admainId < 2 ^ 64 := by decide
  have hlt : ∀ i ∈ List.range' 1 (total rows) ++ [admainId], i < 2 ^ 64 := by
    intro i hi
    rw [List.mem_append, List.mem_range'_1, List.mem_singleton] at hi
    omega
  rw [hids, (hperm.map objectId).nodup_iff]
  refine List.Nodup.map_on (fun i hi j hj => objectId_inj (hlt i hi) (hlt j hj)) ?_
  rw [List.nodup_append]
  refine ⟨List.nodup_range', List.nodup_singleton _, fun i hi j hj => ?_⟩
  rw [List.mem_range'_1] at hi
  rw [List.mem_singleton] at hj
  omega

end CreatedFrom

end Sui

end RelayContracts
