import Mathlib.Data.List.AList
import RelayContracts.Preda.MillionPixel
import RelayContracts.Synchronous

/-!
# The Sui million pixel module and its benchmark

The Move module `MillionPixel` keeps the lands in shared objects, the land records. A record is a
table from packed coordinates to the id of an object `Land`, which is created when the pixel is
occupied and sent to whoever occupied it. Any number of records can exist, and the module does not
ask which record a pixel belongs to: it would hand out a pixel once per record.

That this does not happen is the doing of the benchmark. `prepare_land_objects` creates `n` records
and numbers them from `0`, and `generate_tx` sends a pixel to the record given by the packed
coordinates modulo `n`. `sharding_transparent` says that the records then hold together what one
record would, and `consistent_iff` for how many records the numbers suffice.

Which id `object::new` returns is not up to the module. The id is an argument of the execution of a
transaction here, and all that is asked of the ids of the records is that no two are the same; of
the ids of the lands nothing is asked. The transactions that create the records are executed in any
order, and `execute_raw_transactions` collects their effects as they complete, in any order again,
so which number a record gets is open. Left out are the id of the table within a record, which
nothing refers to, and the versions and gas objects of the transactions.

## Main definitions

* `MillionPixel.createLandRecords`, `MillionPixel.occupy` — the module
* `MillionPixel.ExecuteRaw` — what `execute_raw_transactions` may return
* `MillionPixel.prepareLandObjects`, `MillionPixel.generateTx` — the benchmark
* `MillionPixel.Filed` — what the objects look like after a list of transactions
-/

namespace RelayContracts

namespace Sui

namespace MillionPixel

open RelayMachine
open Preda.MillionPixel (pixelIndex pixelIndex_eq pack_inj)

/-- `struct Land`. -/
structure Land (A I : Type) where
  /-- `id: UID`. -/
  id : I
  /-- `owner: address`. -/
  owner : A
  /-- `x: u16`. -/
  x : UInt16
  /-- `y: u16`. -/
  y : UInt16
  deriving DecidableEq, Repr

/-- `struct LandRecord`. -/
structure LandRecord (I : Type) where
  /-- `id: UID`. -/
  id : I
  /-- `lands: Table<u32, ID>`. -/
  lands : ℕ → Option I

/-- The objects of the module. -/
structure State (A I : Type) where
  /-- The land records. They are shared, so a transaction refers to them by id. -/
  records : I → Option (LandRecord I)
  /-- The lands, each with the address it was transferred to. -/
  lands : List (A × Land A I)

/-- Why a transaction aborted. -/
inductive Abort where
  /-- An object the transaction refers to does not exist. -/
  | missingObject
  /-- `table::add` under a key that is there. -/
  | keyAlreadyExists
  /-- A `u32` overflowed. -/
  | arithmeticError
  deriving DecidableEq, Repr

/-- The transactions. `sender` is `tx_context::sender(ctx)`. -/
inductive Transaction (A I : Type) where
  /-- `create_land_records(ctx)`. -/
  | createLandRecords (sender : A)
  /-- `occupy(land_record, x, y, ctx)`. -/
  | occupy (sender : A) (landRecord : I) (x y : UInt16)
  deriving DecidableEq, Repr

/-- The execution of a transaction. -/
structure Call (A I : Type) where
  /-- What is executed. -/
  transaction : Transaction A I
  /-- What `object::new` returns in it. -/
  newId : I
  deriving DecidableEq, Repr

variable {A I : Type}

/-- No object exists. -/
def genesis : State A I := ⟨fun _ => none, []⟩

/-! ### The module -/

section Module

variable [DecidableEq I]

/-- `create_land_records(ctx)`. The value is the id of the shared object it creates. -/
def createLandRecords (newId : I) (s : State A I) :
    Except Abort (Effect (State A I) Empty (Option I)) :=
  let record : LandRecord I := ⟨newId, fun _ => none⟩
  .ok ⟨{ s with records := Function.update s.records newId (some record) }, some newId, []⟩

/-- `occupy(land_record, x, y, ctx)`. -/
def occupy (sender : A) (landRecord : I) (x y : UInt16) (newId : I) (s : State A I) :
    Except Abort (Effect (State A I) Empty (Option I)) :=
  match s.records landRecord with
  | none => .error .missingObject
  | some record =>
    match pixelIndex .trap 65536 x y with
    | .error _ => .error .arithmeticError
    | .ok key =>
      if (record.lands key).isSome then .ok ⟨s, none, []⟩
      else do
        let land : Land A I := ⟨newId, sender, x, y⟩
        let lands ← FirstWins.tableAdd .keyAlreadyExists record.lands key land.id
        .ok ⟨{ records := Function.update s.records landRecord (some { record with lands })
               lands := (sender, land) :: s.lands }, none, []⟩

/-- The module as a machine without relays. -/
def machine : Machine (State A I) (Call A I) Empty (Option I) Abort where
  call k :=
    match k.transaction with
    | .createLandRecords _ => createLandRecords k.newId
    | .occupy sender landRecord x y => occupy sender landRecord x y k.newId
  relay m := m.elim

end Module

/-! ### The benchmark -/

/-- Why the benchmark panicked. -/
inductive Panic where
  /-- An integer overflowed. -/
  | overflow
  /-- The remainder of a division by zero. -/
  | remainderByZero
  /-- `unwrap` of `None`. -/
  | unwrapNone
  deriving DecidableEq, Repr

/-- `TransactionEffects`: whether the transaction aborted, and otherwise the first shared object
that it created. -/
abbrev TransactionEffects (I : Type) := Except Abort (Option I)

/-- `effects.created()`, filtered by `is_shared`, and `next`. -/
def nextShared : TransactionEffects I → Option I
  | .ok created => created
  | .error _ => none

/-- What `execute_raw_transactions` may do and return: every transaction is executed, in some order,
`object::new` returns no id twice, and the effects are collected in some order. -/
def ExecuteRaw [DecidableEq I] (transactions : List (Transaction A I)) (s : State A I)
    (results : List (TransactionEffects I)) (s' : State A I) : Prop :=
  ∃ h : List (Event (Call A I) Empty (Option I) Abort), machine.Run Anything ⟨s, 0⟩ h ⟨s', 0⟩ ∧
    ((calls h).map Call.transaction).Perm transactions ∧ ((calls h).map Call.newId).Nodup ∧
    results.Perm ((outcomes h).map Prod.snd)

/-- `HashMap<u16, ObjectID>`, the land records by number. -/
abbrev LandObjects (I : Type) := AList fun _ : ℕ => I

/-- The transactions that `prepare_land_objects` has executed: one for each of the first
`num_land_objects` user accounts. -/
def landObjectCreateTransactions (accounts : List A) (numLandObjects : ℕ) :
    List (Transaction A I) :=
  (accounts.take numLandObjects).map .createLandRecords

/-- The loop of `prepare_land_objects`: insert each record under the next number `i: u16`. -/
def numberRecords (p : Overflow) :
    List (TransactionEffects I) → (i : ℕ) → LandObjects I → Except Panic (LandObjects I)
  | [], _, landObjects => .ok landObjects
  | effects :: results, i, landObjects =>
    match nextShared effects with
    | none => .error .unwrapNone
    | some landObject =>
      match addU p 16 i 1 with
      | .ok i' => numberRecords p results i' (landObjects.insert i landObject)
      | .error _ => .error .overflow

/-- `prepare_land_objects(num_land_objects)`, with what the transactions returned. -/
def prepareLandObjects (p : Overflow) (numLandObjects : ℕ)
    (results : List (TransactionEffects I)) : Except Panic (LandObjects I) :=
  if numLandObjects = 0 then .ok ∅ else numberRecords p results 0 ∅

/-- The part of `generate_tx` for land objects, at the coordinates that were drawn. There is no call
if there are no land objects. -/
def generateTx (p : Overflow) (landObjects : LandObjects I) (sender : A) (x y : UInt16) :
    Except Panic (Option (Transaction A I)) :=
  if landObjects.keys.length > 0 then
    let len := landObjects.keys.length % 2 ^ 16
    match pixelIndex p 65536 x y with
    | .error _ => .error .overflow
    | .ok key =>
      if len = 0 then .error .remainderByZero
      else
        let index := key % len % 2 ^ 16
        match landObjects.lookup index with
        | none => .error .unwrapNone
        | some landObject => .ok (some (.occupy sender landObject x y))
  else .ok none

/-! ### Preparing -/

/-- The objects after some records were created: they are empty, and there is no land. -/
def prepared [DecidableEq I] (ids : List I) : State A I :=
  ⟨fun id => if id ∈ ids then some ⟨id, fun _ => none⟩ else none, []⟩

/-- The records have the numbers of a list. -/
structure Numbered (ids : List I) (landObjects : LandObjects I) : Prop where
  length_keys : landObjects.keys.length = ids.length
  lookup_eq : ∀ i, landObjects.lookup i = ids[i]?

theorem Numbered.empty : Numbered ([] : List I) ∅ := ⟨rfl, fun _ => rfl⟩

theorem Numbered.insert {ids : List I} {landObjects : LandObjects I}
    (hn : Numbered ids landObjects) (id : I) :
    Numbered (ids ++ [id]) (landObjects.insert ids.length id) where
  length_keys := by
    have hnotMem : ids.length ∉ landObjects.keys := by
      intro hmem
      have hsome := AList.lookup_isSome.mpr hmem
      rw [hn.lookup_eq, List.getElem?_eq_none (Nat.le_refl _)] at hsome
      cases hsome
    rw [AList.keys_insert, List.erase_of_not_mem hnotMem, List.length_cons, hn.length_keys,
      List.length_append, List.length_singleton]
  lookup_eq := by
    intro i
    by_cases hi : i = ids.length
    · rw [hi, AList.lookup_insert, List.getElem?_concat_length]
    · rw [AList.lookup_insert_ne hi, hn.lookup_eq]
      rcases Nat.lt_or_gt_of_ne hi with hlt | hgt
      · rw [List.getElem?_append_left hlt]
      · rw [List.getElem?_eq_none hgt.le,
          List.getElem?_eq_none (by rw [List.length_append, List.length_singleton]; omega)]

theorem Numbered.mem_keys {ids : List I} {landObjects : LandObjects I}
    (hn : Numbered ids landObjects) {i : ℕ} : i ∈ landObjects.keys ↔ i < ids.length := by
  rw [← AList.mem_keys, ← AList.lookup_isSome, hn.lookup_eq]
  simp

/-- The numbers are `0` to `n - 1`. -/
theorem Numbered.keys_perm {ids : List I} {landObjects : LandObjects I}
    (hn : Numbered ids landObjects) : landObjects.keys.Perm (List.range ids.length) := by
  rw [List.perm_ext_iff_of_nodup landObjects.keys_nodup List.nodup_range]
  intro i
  rw [hn.mem_keys, List.mem_range]

/-- The loop gives the records the next numbers, as long as `i` fits a `u16`. -/
theorem numberRecords_eq (p : Overflow) (ids : List I) {done : List I} {landObjects : LandObjects I}
    (hn : Numbered done landObjects) (hle : done.length + ids.length ≤ 65535) :
    ∃ landObjects',
      numberRecords p (ids.map fun id => .ok (some id)) done.length landObjects = .ok landObjects' ∧
      Numbered (done ++ ids) landObjects' := by
  induction ids generalizing done landObjects with
  | nil => exact ⟨landObjects, rfl, by rwa [List.append_nil]⟩
  | cons id ids ih =>
    rw [List.length_cons] at hle
    have hlength : (done ++ [id]).length = done.length + 1 := by simp
    obtain ⟨landObjects', hnumber, hn'⟩ := ih (hn.insert id) (by omega)
    refine ⟨landObjects', ?_, by rwa [List.append_assoc, List.singleton_append] at hn'⟩
    rw [hlength] at hnumber
    rw [List.map_cons, numberRecords]
    simp only [nextShared, addU_of_lt (show done.length + 1 < 2 ^ 16 by omega)]
    exact hnumber

/-- **What `prepare_land_objects` prepares.** -/
theorem exists_prepareLandObjects (p : Overflow) (num : ℕ) {ids : List I}
    (hle : ids.length ≤ 65535) (hnum : num = 0 → ids = []) :
    ∃ landObjects, prepareLandObjects p num (ids.map fun id => .ok (some id)) = .ok landObjects ∧
      Numbered ids landObjects := by
  rw [prepareLandObjects]
  by_cases hzero : num = 0
  · rw [if_pos hzero, hnum hzero]
    exact ⟨∅, rfl, .empty⟩
  · rw [if_neg hzero]
    simpa using numberRecords_eq p ids Numbered.empty (by simpa using hle)

section Creating

variable [DecidableEq I]

theorem createLandRecords_prepared (newId : I) (ids : List I) :
    createLandRecords newId (prepared ids : State A I) =
      .ok ⟨prepared (newId :: ids), some newId, []⟩ := by
  have hrecords : Function.update (prepared ids : State A I).records newId
      (some ⟨newId, fun _ => none⟩) = (prepared (newId :: ids) : State A I).records := by
    funext id
    by_cases hid : id = newId
    · simp [prepared, hid]
    · simp [prepared, hid]
  rw [createLandRecords, hrecords]
  rfl

/-- The events of a run of the module, latest first. -/
abbrev History (A I : Type) := List (Event (Call A I) Empty (Option I) Abort)

/-- **Creating records.** Each transaction creates the record with the id it was given. -/
theorem exists_created (ks : List (Call A I))
    (hks : ∀ k ∈ ks, ∃ sender, k.transaction = .createLandRecords sender) :
    ∃ h : History A I, machine.Run Anything ⟨genesis, 0⟩ h ⟨prepared (ks.map Call.newId), 0⟩ ∧
      outcomes h = ks.map fun k => (k, .ok (some k.newId)) := by
  induction ks with
  | nil => exact ⟨[], by simpa [genesis, prepared] using .nil, rfl⟩
  | cons k ks ih =>
    obtain ⟨⟨sender, hk⟩, hks⟩ := List.forall_mem_cons.mp hks
    obtain ⟨h, hr, hout⟩ := ih hks
    have hcall : machine.call k (prepared (ks.map Call.newId) : State A I) =
        .ok ⟨prepared ((k :: ks).map Call.newId), some k.newId, []⟩ := by
      simp only [machine, hk, createLandRecords_prepared, List.map_cons]
    refine ⟨_, hr.step_call hcall trivial, ?_⟩
    rw [outcomes_cons_call, hout, List.map_cons]

/-- **What has been created.** The results are those of a list of records with different ids, one
for each account, and these are the records there are. -/
theorem ExecuteRaw.exists_ids {accounts : List A} {num : ℕ}
    {results : List (TransactionEffects I)} {s₀ : State A I}
    (hcreate : ExecuteRaw (landObjectCreateTransactions accounts num) genesis results s₀) :
    ∃ ids : List I, ids.length = min num accounts.length ∧ ids.Nodup ∧ s₀ = prepared ids ∧
      results = ids.map fun id => .ok (some id) := by
  obtain ⟨h, hr, htransactions, hnodup, hresults⟩ := hcreate
  have hcreates : ∀ k ∈ calls h, ∃ sender, k.transaction = .createLandRecords sender := by
    intro k hk
    have hmem := htransactions.subset (List.mem_map_of_mem hk)
    obtain ⟨sender, -, hsender⟩ := List.mem_map.mp hmem
    exact ⟨sender, hsender.symm⟩
  obtain ⟨h', hr', hout⟩ := exists_created _ hcreates
  have hcalls : calls h = calls h' := by
    rw [← map_fst_outcomes h', hout, List.map_map]
    exact (List.map_id _).symm
  obtain ⟨houtcomes, hstate⟩ := hr.outcomes_unique hr' hcalls
  rw [houtcomes, hout, List.map_map] at hresults
  have hcomp := congrFun₂ (List.eq_map_comp_perm
    fun id : I => (.ok (some id) : TransactionEffects I)) results ((calls h).map Call.newId)
  obtain ⟨ids, rfl, hperm⟩ := hcomp.mpr (by rwa [List.map_map])
  refine ⟨ids, ?_, hperm.nodup_iff.mpr hnodup, ?_, rfl⟩
  · have hlength := htransactions.length_eq
    rw [List.length_map, landObjectCreateTransactions, List.length_map, List.length_take] at hlength
    rw [hperm.length_eq, List.length_map, hlength]
  · rw [show s₀ = prepared ((calls h).map Call.newId) from hstate]
    simp only [prepared, hperm.mem_iff]

end Creating

/-! ### Generating -/

/-- Somebody wants a pixel. -/
structure Request (A : Type) where
  /-- Who sends the transaction. -/
  sender : A
  /-- The coordinate `x` that was drawn. -/
  x : UInt16
  /-- The coordinate `y` that was drawn. -/
  y : UInt16
  deriving DecidableEq, Repr

/-- The packed coordinates. -/
def packed (x y : UInt16) : ℕ := x.toNat * 65536 + y.toNat

/-- A transaction is for a pixel, and sent to the record the pixel belongs to. -/
def Routed (ids : List I) : Transaction A I → Prop
  | .createLandRecords _ => False
  | .occupy _ landRecord x y => ids[packed x y % ids.length]? = some landRecord

/-- Who asks for a pixel with a transaction. -/
def Transaction.claimant (x y : UInt16) : Transaction A I → Option A
  | .createLandRecords _ => none
  | .occupy sender _ x' y' => if x' = x ∧ y' = y then some sender else none

/-- A transaction sent to another record. -/
def Transaction.onRecord (landRecord : I) : Transaction A I → Transaction A I
  | .occupy sender _ x y => .occupy sender landRecord x y
  | t => t

theorem claimant_onRecord (x y : UInt16) (landRecord : I) (t : Transaction A I) :
    (t.onRecord landRecord).claimant x y = t.claimant x y := by
  cases t with
  | createLandRecords sender => rfl
  | occupy sender landRecord' x' y' => rfl

theorem exists_generateTx (p : Overflow) {ids : List I} (hpos : 1 ≤ ids.length)
    (hle : ids.length ≤ 65535) {landObjects : LandObjects I} (hn : Numbered ids landObjects)
    (sender : A) (x y : UInt16) :
    ∃ landObject, ids[packed x y % ids.length]? = some landObject ∧
      generateTx p landObjects sender x y = .ok (some (.occupy sender landObject x y)) := by
  have hlt : packed x y % ids.length < ids.length := Nat.mod_lt _ hpos
  have hindex : packed x y % ids.length % 2 ^ 16 = packed x y % ids.length :=
    Nat.mod_eq_of_lt (by omega)
  have hlen : landObjects.keys.length % 2 ^ 16 = ids.length := by
    rw [hn.length_keys, Nat.mod_eq_of_lt (by omega)]
  refine ⟨ids[packed x y % ids.length], List.getElem?_eq_getElem hlt, ?_⟩
  rw [generateTx, if_pos (by rw [hn.length_keys]; omega), pixelIndex_eq p (Nat.le_refl 65536)]
  simp only
  rw [if_neg (by omega), hlen, ← packed, hindex, hn.lookup_eq, List.getElem?_eq_getElem hlt]

/-- The transactions that are built for a list of requests. -/
theorem exists_mapM_generateTx (p : Overflow) {ids : List I} (hpos : 1 ≤ ids.length)
    (hle : ids.length ≤ 65535) {landObjects : LandObjects I} (hn : Numbered ids landObjects)
    (requests : List (Request A)) :
    ∃ built : List (Transaction A I),
      requests.mapM (fun q => generateTx p landObjects q.sender q.x q.y) = .ok (built.map some) ∧
      ∀ t ∈ built, Routed ids t := by
  induction requests with
  | nil => exact ⟨[], rfl, by simp⟩
  | cons q requests ih =>
    obtain ⟨built, hbuilt, hrouted⟩ := ih
    obtain ⟨landObject, hlookup, htx⟩ := exists_generateTx p hpos hle hn q.sender q.x q.y
    refine ⟨.occupy q.sender landObject q.x q.y :: built, ?_,
      List.forall_mem_cons.mpr ⟨hlookup, hrouted⟩⟩
    rw [List.mapM_cons, htx, ok_bind, hbuilt]
    rfl

/-! ### Lands and records -/

/-- The packed coordinates of a land. -/
def Land.key (l : Land A I) : ℕ := packed l.x l.y

/-- Who owns a pixel. -/
def State.ownerAt (s : State A I) (x y : UInt16) : Option A :=
  (s.lands.find? fun l => l.2.x = x ∧ l.2.y = y).map fun l => l.2.owner

theorem Land.key_eq_iff {l : Land A I} {x y : UInt16} :
    l.key = packed x y ↔ l.x = x ∧ l.y = y := by
  constructor
  · exact pack_inj
  · rintro ⟨rfl, rfl⟩
    rfl

/-- The objects after a list of transactions, latest first, where `ids` are the records. -/
structure Filed (ids : List I) (ts : List (Transaction A I)) (s : State A I) : Prop where
  exists_record : ∀ id ∈ ids, ∃ record, s.records id = some record
  lands_eq_some_iff : ∀ {i id record key landId}, ids[i]? = some id → s.records id = some record →
    (record.lands key = some landId ↔
      i = key % ids.length ∧ ∃ l ∈ s.lands, l.2.key = key ∧ l.2.id = landId)
  nodup : (s.lands.map fun l => l.2.key).Nodup
  owner_eq : ∀ l ∈ s.lands, l.2.owner = l.1
  ownerAt_eq : ∀ x y, s.ownerAt x y = ts.reverse.findSome? (Transaction.claimant x y)

theorem filed_prepared [DecidableEq I] (ids : List I) :
    Filed ids [] (prepared ids : State A I) where
  exists_record := fun id hid => ⟨_, if_pos hid⟩
  lands_eq_some_iff := by
    intro i id record key landId _ hrecord
    obtain ⟨-, hrecord⟩ := Option.ite_none_right_eq_some.mp hrecord
    cases hrecord
    simp [prepared]
  nodup := List.nodup_nil
  owner_eq := fun l hl => absurd hl List.not_mem_nil
  ownerAt_eq := fun x y => rfl

variable {ids : List I} {ts : List (Transaction A I)} {s : State A I}

theorem ownerAt_eq_none {x y : UInt16} (hs : ∀ l ∈ s.lands, l.2.key ≠ packed x y) :
    s.ownerAt x y = none := by
  rw [State.ownerAt, Option.map_eq_none_iff, List.find?_eq_none]
  intro l hl hxy
  exact hs l hl (Land.key_eq_iff.mpr (by simpa using hxy))

theorem findSome?_reverse_cons {α β : Type} (f : α → Option β) (a : α) (l : List α) :
    (a :: l).reverse.findSome? f = (l.reverse.findSome? f).or (f a) := by
  rw [List.reverse_cons, List.findSome?_append, List.findSome?_singleton]

/-- A transaction for a pixel that has an owner changes nothing. -/
theorem Filed.taken (hf : Filed ids ts s) {x y : UInt16} {l : A × Land A I} (hl : l ∈ s.lands)
    (hkey : l.2.key = packed x y) (a : A) (landRecord : I) :
    Filed ids (.occupy a landRecord x y :: ts) s where
  exists_record := hf.exists_record
  lands_eq_some_iff := hf.lands_eq_some_iff
  nodup := hf.nodup
  owner_eq := hf.owner_eq
  ownerAt_eq := by
    have hsome : (s.ownerAt x y).isSome := by
      rw [State.ownerAt, Option.isSome_map, List.find?_isSome]
      exact ⟨l, hl, by simpa using Land.key_eq_iff.mp hkey⟩
    intro x' y'
    rw [findSome?_reverse_cons, ← hf.ownerAt_eq, Transaction.claimant]
    by_cases hxy : x = x' ∧ y = y'
    · obtain ⟨rfl, rfl⟩ := hxy
      rw [Option.or_of_isSome hsome]
    · rw [if_neg hxy, Option.or_none]

/-- A new land is found first. -/
theorem ownerAt_cons (l : A × Land A I) (records : I → Option (LandRecord I)) (s : State A I)
    (x y : UInt16) :
    State.ownerAt ⟨records, l :: s.lands⟩ x y =
      if l.2.x = x ∧ l.2.y = y then some l.2.owner else s.ownerAt x y := by
  by_cases hxy : l.2.x = x ∧ l.2.y = y
  · simp [State.ownerAt, hxy]
  · simp [State.ownerAt, hxy]

section Free

variable [DecidableEq I] {x y : UInt16} {landRecord : I} {record : LandRecord I}
  (hf : Filed ids ts s) (a : A)
  (hids : ids[packed x y % ids.length]? = some landRecord)
  (hrecord : s.records landRecord = some record)
  (hs : ∀ l ∈ s.lands, l.2.key ≠ packed x y)

include hf hids hrecord hs

/-- What the records say after a land has been filed in its own. -/
theorem Filed.lands_eq_some_iff_free (hnodup : ids.Nodup) {i key : ℕ} {id landId newId : I}
    {record' : LandRecord I} (hi : ids[i]? = some id)
    (hrecord' : Function.update s.records landRecord (some { record with
      lands := Function.update record.lands (packed x y) (some newId) }) id = some record') :
    record'.lands key = some landId ↔ i = key % ids.length ∧
      ∃ l ∈ (a, (⟨newId, a, x, y⟩ : Land A I)) :: s.lands, l.2.key = key ∧ l.2.id = landId := by
  have hnew : (⟨newId, a, x, y⟩ : Land A I).key = packed x y := rfl
  simp only [List.mem_cons, exists_eq_or_imp, hnew]
  by_cases hid : id = landRecord
  · obtain rfl : i = packed x y % ids.length :=
      (List.getElem?_inj (List.getElem?_eq_some_iff.mp hi).1 hnodup).mp
        (hi.trans (hid ▸ hids.symm))
    rw [hid, Function.update_self] at hrecord'
    cases hrecord'
    dsimp only
    by_cases hk : key = packed x y
    · rw [hk, Function.update_self, Option.some_inj]
      constructor
      · exact fun hid => ⟨rfl, .inl ⟨rfl, hid⟩⟩
      · rintro ⟨-, ⟨-, hid⟩ | ⟨l, hl, hl', -⟩⟩
        · exact hid
        · exact absurd hl' (hs l hl)
    · rw [Function.update_of_ne hk, hf.lands_eq_some_iff hids hrecord]
      simp [Ne.symm hk]
  · rw [Function.update_of_ne hid] at hrecord'
    rw [hf.lands_eq_some_iff hi hrecord']
    constructor
    · exact fun h => ⟨h.1, .inr h.2⟩
    · rintro ⟨hi', ⟨rfl, -⟩ | hl⟩
      · rw [hi', hids] at hi
        exact absurd (Option.some_inj.mp hi).symm hid
      · exact ⟨hi', hl⟩

/-- A transaction for a pixel that has no owner creates a land and files it. -/
theorem Filed.free (hnodup : ids.Nodup) (newId : I) :
    Filed ids (.occupy a landRecord x y :: ts)
      { records := Function.update s.records landRecord (some { record with
          lands := Function.update record.lands (packed x y) (some newId) })
        lands := (a, ⟨newId, a, x, y⟩) :: s.lands } where
  exists_record := by
    intro id hid
    dsimp only
    by_cases hid' : id = landRecord
    · rw [hid', Function.update_self]
      exact ⟨_, rfl⟩
    · rw [Function.update_of_ne hid']
      exact hf.exists_record id hid
  lands_eq_some_iff := hf.lands_eq_some_iff_free a hids hrecord hs hnodup
  nodup := by
    refine List.nodup_cons.mpr ⟨?_, hf.nodup⟩
    rw [List.mem_map]
    rintro ⟨l, hl, hl'⟩
    exact hs l hl hl'
  owner_eq := List.forall_mem_cons.mpr ⟨rfl, hf.owner_eq⟩
  ownerAt_eq := by
    intro x' y'
    rw [ownerAt_cons, findSome?_reverse_cons, ← hf.ownerAt_eq, Transaction.claimant]
    dsimp only
    by_cases hxy : x = x' ∧ y = y'
    · obtain ⟨rfl, rfl⟩ := hxy
      rw [ownerAt_eq_none hs, if_pos ⟨rfl, rfl⟩, Option.none_or]
    · rw [if_neg hxy, if_neg hxy, Option.or_none]

end Free

/-- A pixel has at most one land. -/
theorem Filed.length_filter_le (hf : Filed ids ts s) (x y : UInt16) :
    (s.lands.filter fun l => l.2.x = x ∧ l.2.y = y).length ≤ 1 := by
  have hkeys : (s.lands.filter fun l => l.2.x = x ∧ l.2.y = y).map (fun l => l.2.key) =
      List.replicate (s.lands.filter fun l => l.2.x = x ∧ l.2.y = y).length (packed x y) := by
    rw [List.map_eq_replicate_iff]
    intro l hl
    exact Land.key_eq_iff.mpr (by simpa using (List.mem_filter.mp hl).2)
  have hsublist : (s.lands.filter fun l => l.2.x = x ∧ l.2.y = y).Sublist s.lands :=
    List.filter_sublist
  have hnodup := hf.nodup.sublist (hsublist.map _)
  rw [hkeys] at hnodup
  exact List.nodup_replicate.mp hnodup

section Occupying

variable [DecidableEq I]

/-- **One transaction.** -/
theorem Filed.occupy (hf : Filed ids ts s) (hnodup : ids.Nodup) {k : Call A I}
    (hk : Routed ids k.transaction) :
    ∃ s', machine.call k s = .ok ⟨s', none, []⟩ ∧ Filed ids (k.transaction :: ts) s' := by
  obtain ⟨_ | ⟨a, landRecord, x, y⟩, newId⟩ := k
  · exact hk.elim
  have hids : ids[packed x y % ids.length]? = some landRecord := hk
  obtain ⟨record, hrecord⟩ := hf.exists_record landRecord (List.mem_of_getElem? hids)
  show ∃ s', MillionPixel.occupy a landRecord x y newId s = _ ∧
    Filed ids (.occupy a landRecord x y :: ts) s'
  rw [MillionPixel.occupy, hrecord, pixelIndex_eq .trap (Nat.le_refl 65536), ← packed]
  cases hlands : record.lands (packed x y) with
  | some id =>
    obtain ⟨-, l, hl, hkey, -⟩ := (hf.lands_eq_some_iff hids hrecord).mp hlands
    exact ⟨s, by simp [hlands], hf.taken hl hkey a landRecord⟩
  | none =>
    have hs : ∀ l ∈ s.lands, l.2.key ≠ packed x y := by
      intro l hl hkey
      cases hlands.symm.trans ((hf.lands_eq_some_iff hids hrecord).mpr ⟨rfl, l, hl, hkey, rfl⟩)
    refine ⟨_, ?_, hf.free a hids hrecord hs hnodup newId⟩
    simp [hlands, FirstWins.tableAdd_of_none _ hlands]

/-- **The transactions of a list,** latest first, all succeed. -/
theorem exists_filed (hnodup : ids.Nodup) {ks : List (Call A I)}
    (hks : ∀ k ∈ ks, Routed ids k.transaction) :
    ∃ (h : History A I) (s : State A I), machine.Run Anything ⟨prepared ids, 0⟩ h ⟨s, 0⟩ ∧
      outcomes h = ks.map (fun k => (k, .ok none)) ∧
      Filed ids (ks.map Call.transaction) s := by
  induction ks with
  | nil => exact ⟨[], _, .nil, rfl, filed_prepared ids⟩
  | cons k ks ih =>
    obtain ⟨hk, hks⟩ := List.forall_mem_cons.mp hks
    obtain ⟨h, s, hr, hout, hf⟩ := ih hks
    obtain ⟨s', hcall, hf'⟩ := hf.occupy hnodup hk
    refine ⟨_, s', hr.step_call hcall trivial, ?_, hf'⟩
    rw [outcomes_cons_call, hout, List.map_cons]

/-! ### Sharding -/

/-- **Sharding by land record is transparent.** Let the benchmark have created `n` records, in any
order and with any ids that differ, and collected the effects in any order. Then it numbers the
records and builds transactions for any pixels. Let these be executed in any order, whatever the ids
of the lands are. Then they all succeed; a pixel has at most one land; the land is filed under the
packed coordinates in the record the coordinates belong to, and in no other; it belongs to the
sender of the first transaction for the pixel; and the owners are those that the same transactions
in the same order bring about on a single record, however that was created. -/
theorem sharding_transparent (p : Overflow) (accounts : List A) (num : ℕ) {n : ℕ}
    (hn : (accounts.take num).length = n) (hpos : 1 ≤ n) (hle : n ≤ 65535)
    {results : List (TransactionEffects I)} {s₀ : State A I}
    (hcreate : ExecuteRaw (landObjectCreateTransactions accounts num) genesis results s₀)
    (requests : List (Request A)) :
    ∃ (landObjects : LandObjects I) (built : List (Transaction A I)),
      prepareLandObjects p num results = .ok landObjects ∧
      requests.mapM (fun q => generateTx p landObjects q.sender q.x q.y) =
        .ok (built.map some) ∧
      ∀ executed : List (Call A I), (executed.map Call.transaction).Perm built →
        ∃ (h : History A I) (s : State A I), machine.Run Anything ⟨s₀, 0⟩ h ⟨s, 0⟩ ∧
          outcomes h = executed.map (fun k => (k, .ok none)) ∧
          (∀ x y, (s.lands.filter fun l => l.2.x = x ∧ l.2.y = y).length ≤ 1) ∧
          (∀ l ∈ s.lands, ∃ id record,
            landObjects.lookup ((l.2.x.toNat * 65536 + l.2.y.toNat) % n) = some id ∧
            s.records id = some record ∧
            record.lands (l.2.x.toNat * 65536 + l.2.y.toNat) = some l.2.id) ∧
          (∀ i id record key, landObjects.lookup i = some id → s.records id = some record →
            (record.lands key).isSome → i = key % n) ∧
          (∀ l ∈ s.lands, l.2.owner = l.1) ∧
          (∀ x y, s.ownerAt x y =
            executed.reverse.findSome? fun k => k.transaction.claimant x y) ∧
          ∀ (results₁ : List (TransactionEffects I)) (t₀ : State A I),
            ExecuteRaw (landObjectCreateTransactions accounts 1) genesis results₁ t₀ →
            ∃ (landObjects₁ : LandObjects I) (id₁ : I),
              prepareLandObjects p 1 results₁ = .ok landObjects₁ ∧
              landObjects₁.keys.length = 1 ∧ landObjects₁.lookup 0 = some id₁ ∧
              ∀ executed₁ : List (Call A I), executed₁.map Call.transaction =
                  executed.map (fun k => k.transaction.onRecord id₁) →
                ∃ (h₁ : History A I) (t : State A I), machine.Run Anything ⟨t₀, 0⟩ h₁ ⟨t, 0⟩ ∧
                  outcomes h₁ = executed₁.map (fun k => (k, .ok none)) ∧
                  ∀ x y, s.ownerAt x y = t.ownerAt x y := by
  rw [List.length_take] at hn
  obtain ⟨ids, hlength, hnodup, rfl, rfl⟩ := hcreate.exists_ids
  obtain rfl : ids.length = n := hlength.trans hn
  obtain ⟨landObjects, hprepare, hnumbered⟩ :=
    exists_prepareLandObjects p num hle fun hzero => by simp_all
  obtain ⟨built, hbuilt, hrouted⟩ := exists_mapM_generateTx p hpos hle hnumbered requests
  refine ⟨landObjects, built, hprepare, hbuilt, fun executed hperm => ?_⟩
  have hexecuted : ∀ k ∈ executed, Routed ids k.transaction := fun k hk =>
    hrouted _ (hperm.subset (List.mem_map_of_mem hk))
  obtain ⟨h, s, hr, hout, hf⟩ := exists_filed hnodup hexecuted
  have howner : ∀ x y, s.ownerAt x y =
      executed.reverse.findSome? fun k => k.transaction.claimant x y := by
    intro x y
    rw [hf.ownerAt_eq, ← List.map_reverse, List.findSome?_map]
    rfl
  refine ⟨h, s, hr, hout, hf.length_filter_le, ?_, ?_, hf.owner_eq, howner, ?_⟩
  · intro l hl
    have hlt : l.2.key % ids.length < ids.length := Nat.mod_lt _ hpos
    have hid := List.getElem?_eq_getElem hlt
    obtain ⟨record, hrecord⟩ := hf.exists_record _ (List.mem_of_getElem? hid)
    exact ⟨_, record, (hnumbered.lookup_eq _).trans hid, hrecord,
      (hf.lands_eq_some_iff hid hrecord).mpr ⟨rfl, l, hl, rfl, rfl⟩⟩
  · intro i id record key hlookup hrecord hsome
    obtain ⟨landId, hlandId⟩ := Option.isSome_iff_exists.mp hsome
    rw [hnumbered.lookup_eq] at hlookup
    exact ((hf.lands_eq_some_iff hlookup hrecord).mp hlandId).1
  · intro results₁ t₀ hcreate₁
    obtain ⟨ids₁, hlength₁, hnodup₁, rfl, rfl⟩ := hcreate₁.exists_ids
    obtain ⟨id₁, rfl⟩ : ∃ id₁, ids₁ = [id₁] := List.length_eq_one_iff.mp (by omega)
    have hle₁ : [id₁].length ≤ 65535 := by simp
    obtain ⟨landObjects₁, hprepare₁, hnumbered₁⟩ :=
      exists_prepareLandObjects p 1 hle₁ fun hzero => by cases hzero
    refine ⟨landObjects₁, id₁, hprepare₁, hnumbered₁.length_keys, hnumbered₁.lookup_eq 0, ?_⟩
    intro executed₁ hexecuted₁
    have hrouted₁ : ∀ k ∈ executed₁, Routed [id₁] k.transaction := by
      intro k hk
      have hmem : k.transaction ∈ executed₁.map Call.transaction := List.mem_map_of_mem hk
      rw [hexecuted₁] at hmem
      obtain ⟨k', hk', heq⟩ := List.mem_map.mp hmem
      have hk'' := hexecuted k' hk'
      rw [← heq]
      cases ht : k'.transaction with
      | createLandRecords sender =>
        rw [ht] at hk''
        exact hk''.elim
      | occupy sender landRecord x y => simp [Transaction.onRecord, Routed, Nat.mod_one]
    obtain ⟨h₁, t, hr₁, hout₁, hf₁⟩ := exists_filed hnodup₁ hrouted₁
    refine ⟨h₁, t, hr₁, hout₁, fun x y => ?_⟩
    rw [howner, hf₁.ownerAt_eq, hexecuted₁, ← List.map_reverse, List.findSome?_map]
    simp only [Function.comp_def, claimant_onRecord]

end Occupying

/-- Two records, created by the accounts 1 and 0 in this order, with the effects collected the other
way round; and three transactions of which two are for the same pixel, executed in the order
opposite to that in which they were built. -/
theorem sharding_transparent_two :
    ∃ (results : List (TransactionEffects ℕ)) (s₀ : State (Fin 3) ℕ) (landObjects : LandObjects ℕ)
      (built : List (Transaction (Fin 3) ℕ)),
      ExecuteRaw (landObjectCreateTransactions [0, 1, 2] 2) genesis results s₀ ∧
      results = [.ok (some 8), .ok (some 5)] ∧
      prepareLandObjects .trap 2 results = .ok landObjects ∧
      [⟨2, 0, 7⟩, ⟨1, 3, 4⟩, ⟨0, 0, 7⟩].mapM
        (fun q : Request (Fin 3) => generateTx .trap landObjects q.sender q.x q.y) =
          .ok (built.map some) ∧
      ∃ (h : History (Fin 3) ℕ) (s : State (Fin 3) ℕ), machine.Run Anything ⟨s₀, 0⟩ h ⟨s, 0⟩ ∧
        outcomes h = built.reverse.map (fun t => (⟨t, 9⟩, .ok none)) ∧
        ∀ x y, (s.lands.filter fun l => l.2.x = x ∧ l.2.y = y).length ≤ 1 := by
  obtain ⟨h₀, hr₀, hout₀⟩ := exists_created (A := Fin 3) (I := ℕ)
    [⟨.createLandRecords 0, 5⟩, ⟨.createLandRecords 1, 8⟩] (by simp)
  have hcalls : calls h₀ = [⟨.createLandRecords 0, 5⟩, ⟨.createLandRecords 1, 8⟩] := by
    rw [← map_fst_outcomes, hout₀]
    rfl
  have hcreate : ExecuteRaw (landObjectCreateTransactions [(0 : Fin 3), 1, 2] 2) genesis
      [.ok (some 8), .ok (some 5)] (prepared [5, 8]) := by
    refine ⟨h₀, hr₀, by rw [hcalls]; decide, by rw [hcalls]; decide, ?_⟩
    rw [hout₀]
    exact List.Perm.swap _ _ _
  obtain ⟨landObjects, built, hprepare, hbuilt, hany⟩ := sharding_transparent .trap
    [(0 : Fin 3), 1, 2] 2 rfl (by decide) (by decide) hcreate [⟨2, 0, 7⟩, ⟨1, 3, 4⟩, ⟨0, 0, 7⟩]
  obtain ⟨h, s, hr, hout, hone, -⟩ := hany (built.reverse.map fun t => ⟨t, 9⟩) (by
    rw [List.map_map]
    exact (List.map_id _).symm ▸ List.reverse_perm built)
  refine ⟨_, _, landObjects, built, hcreate, rfl, hprepare, hbuilt, h, s, hr, ?_, hone⟩
  rw [hout, List.map_map]
  rfl

/-! ### The numbers of the records -/

/-- The records are numbered and addressed consistently: the benchmark prepares a map with exactly
the keys `0` to `n - 1`, one for each of the accounts it takes, in which each record that was
created has one number; and a transaction goes to a record of the map, whatever its coordinates
are. -/
def Consistent (p : Overflow) (accounts : List A) (numLandObjects : ℕ)
    (results : List (TransactionEffects I)) (s₀ : State A I) : Prop :=
  ∃ n landObjects, n = min numLandObjects accounts.length ∧
    prepareLandObjects p numLandObjects results = .ok landObjects ∧
    landObjects.keys.Perm (List.range n) ∧
    (∀ id, (s₀.records id).isSome ↔ ∃ i, landObjects.lookup i = some id) ∧
    (∀ i j id, landObjects.lookup i = some id → landObjects.lookup j = some id → i = j) ∧
    ∀ (sender : A) (x y : UInt16),
      (n = 0 → generateTx p landObjects sender x y = .ok none) ∧
      (0 < n → ∃ i < n, ∃ id, landObjects.lookup i = some id ∧
        generateTx p landObjects sender x y = .ok (some (.occupy sender id x y)))

/-- The numbers are `u16`s, whether the counter wraps or not. -/
theorem lt_of_mem_numberRecords {p : Overflow} {results : List (TransactionEffects I)} {i : ℕ}
    {landObjects landObjects' : LandObjects I}
    (h : numberRecords p results i landObjects = .ok landObjects') (hi : i < 2 ^ 16)
    (hkeys : ∀ k ∈ landObjects.keys, k < 2 ^ 16) : ∀ k ∈ landObjects'.keys, k < 2 ^ 16 := by
  induction results generalizing i landObjects with
  | nil =>
    cases h
    exact hkeys
  | cons effects results ih =>
    rw [numberRecords] at h
    split at h
    · cases h
    · split at h
      · rename_i i' hi'
        refine ih h (lt_of_addU hi') fun k hk => ?_
        rcases (AList.mem_insert landObjects).mp hk with rfl | hk
        · exact hi
        · exact hkeys k hk
      · cases h

/-- A map that `prepare_land_objects` returns has no more than `2 ^ 16` keys. -/
theorem length_keys_le {p : Overflow} {num : ℕ} {results : List (TransactionEffects I)}
    {landObjects : LandObjects I} (h : prepareLandObjects p num results = .ok landObjects) :
    landObjects.keys.length ≤ 2 ^ 16 := by
  rw [prepareLandObjects] at h
  split at h
  · cases h
    exact Nat.zero_le _
  · have hlt := lt_of_mem_numberRecords h (Nat.two_pow_pos 16) (by simp)
    have hsub : landObjects.keys.Subperm (List.range (2 ^ 16)) :=
      landObjects.keys_nodup.subperm fun k hk => List.mem_range.mpr (hlt k hk)
    simpa using hsub.length_le

/-- A map of `2 ^ 16` records has the length zero, as a `u16`. -/
theorem generateTx_of_full (p : Overflow) {landObjects : LandObjects I}
    (hfull : landObjects.keys.length = 2 ^ 16) (sender : A) (x y : UInt16) :
    generateTx p landObjects sender x y = .error .remainderByZero := by
  rw [generateTx, if_pos (by rw [hfull]; decide), pixelIndex_eq p (Nat.le_refl 65536)]
  simp only
  rw [if_pos (by rw [hfull, Nat.mod_self])]

theorem Consistent.min_le {p : Overflow} {accounts : List A} {num : ℕ}
    {results : List (TransactionEffects I)} {s₀ : State A I}
    (h : Consistent p accounts num results s₀) : min num accounts.length ≤ 65535 := by
  obtain ⟨n, landObjects, rfl, hprepare, hkeys, -, -, hgenerate⟩ := h
  have hlength : landObjects.keys.length = min num accounts.length := by
    rw [hkeys.length_eq, List.length_range]
  have hle := length_keys_le hprepare
  by_contra hlt
  obtain ⟨sender, -⟩ := List.exists_mem_of_length_pos (show 0 < accounts.length by omega)
  obtain ⟨i, -, id, -, hok⟩ := (hgenerate sender 0 0).2 (by omega)
  rw [generateTx_of_full p (by omega)] at hok
  cases hok

variable [DecidableEq I]

/-- **When the records are numbered consistently.** For any number of records and of accounts,
whatever ids the records have and in whatever order they are created and collected, and whether the
counter wraps or traps: exactly if there are fewer than `2 ^ 16` records. -/
theorem consistent_iff (p : Overflow) (accounts : List A) (numLandObjects : ℕ)
    {results : List (TransactionEffects I)} {s₀ : State A I}
    (hcreate :
      ExecuteRaw (landObjectCreateTransactions accounts numLandObjects) genesis results s₀) :
    Consistent p accounts numLandObjects results s₀ ↔
      min numLandObjects accounts.length ≤ 65535 := by
  refine ⟨Consistent.min_le, fun hle => ?_⟩
  obtain ⟨ids, hlength, hnodup, rfl, rfl⟩ := hcreate.exists_ids
  rw [← hlength] at hle
  obtain ⟨landObjects, hprepare, hnumbered⟩ :=
    exists_prepareLandObjects p numLandObjects hle fun hzero => by simp_all
  refine ⟨_, landObjects, hlength, hprepare, hnumbered.keys_perm, fun id => ?_,
    fun i j id hi hj => ?_, fun sender x y => ⟨fun hzero => ?_, fun hpos => ?_⟩⟩
  · simp only [prepared, hnumbered.lookup_eq, Option.isSome_ite, List.mem_iff_getElem?]
  · rw [hnumbered.lookup_eq] at hi hj
    exact (List.getElem?_inj (List.getElem?_eq_some_iff.mp hi).1 hnodup).mp (hi.trans hj.symm)
  · rw [generateTx, if_neg (by rw [hnumbered.length_keys, hzero]; exact Nat.lt_irrefl 0)]
  · obtain ⟨landObject, hlookup, htx⟩ := exists_generateTx p hpos hle hnumbered sender x y
    exact ⟨_, Nat.mod_lt _ hpos, landObject, (hnumbered.lookup_eq _).trans hlookup, htx⟩

/-- The records of any accounts can be created. -/
theorem exists_executeRaw (accounts : List A) (num : ℕ) :
    ∃ (results : List (TransactionEffects ℕ)) (s₀ : State A ℕ),
      ExecuteRaw (landObjectCreateTransactions accounts num) genesis results s₀ := by
  obtain ⟨h, hr, hout⟩ := exists_created (I := ℕ)
    ((accounts.take num).zipIdx.map fun a => ⟨.createLandRecords a.1, a.2⟩)
    (List.forall_mem_map.mpr fun a _ => ⟨a.1, rfl⟩)
  have hcalls : calls h =
      (accounts.take num).zipIdx.map fun a => ⟨.createLandRecords a.1, a.2⟩ := by
    rw [← map_fst_outcomes, hout, List.map_map]
    exact List.map_id _
  refine ⟨_, _, h, hr, ?_, ?_, .refl _⟩
  · have hfst := List.zipIdx_map_fst 0 (accounts.take num)
    rw [hcalls, List.map_map, landObjectCreateTransactions]
    nth_rw 2 [← hfst]
    rw [List.map_map]
    exact .refl _
  · have hsnd := List.zipIdx_map_snd 0 (accounts.take num)
    rw [hcalls, List.map_map]
    exact (hsnd ▸ List.nodup_range' : ((accounts.take num).zipIdx.map Prod.snd).Nodup)

/-- With as many records as a `u16` has values, the last number does not have a successor; if the
counter wraps, the length is zero when a transaction is generated. -/
theorem records_inconsistent : ∃ (results : List (TransactionEffects ℕ)) (s₀ : State Bool ℕ),
    ExecuteRaw (landObjectCreateTransactions (List.replicate 65536 true) 65536) genesis results s₀ ∧
    ¬ Consistent .trap (List.replicate 65536 true) 65536 results s₀ ∧
    ¬ Consistent .wrap (List.replicate 65536 true) 65536 results s₀ := by
  obtain ⟨results, s₀, hcreate⟩ := exists_executeRaw (List.replicate 65536 true) 65536
  refine ⟨results, s₀, hcreate, fun h => ?_, fun h => ?_⟩
  · have hle := h.min_le
    rw [List.length_replicate] at hle
    omega
  · have hle := h.min_le
    rw [List.length_replicate] at hle
    omega

/-- Two records for three accounts. -/
theorem consistent_two : ∃ (results : List (TransactionEffects ℕ)) (s₀ : State Bool ℕ),
    ExecuteRaw (landObjectCreateTransactions [true, false, true] 2) genesis results s₀ ∧
    Consistent .wrap [true, false, true] 2 results s₀ := by
  obtain ⟨results, s₀, hcreate⟩ := exists_executeRaw [true, false, true] 2
  exact ⟨results, s₀, hcreate, (consistent_iff .wrap _ 2 hcreate).mpr (by decide)⟩

end MillionPixel

end Sui

end RelayContracts
