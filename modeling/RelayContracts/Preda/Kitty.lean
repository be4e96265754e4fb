import RelayContracts.Ledger
import RelayContracts.NewtonSqrt
import RelayContracts.Preda.Runtime
import RelayContracts.RelayMachine

/-!
# The PREDA kitty contract

The contract `KittyBreeding` of `Kitty.prd`. A kitty has an entry in the global list `allKitties`,
which says who owns it, and one in its owner's map `myKitties`, which holds its genes. The two are
written by different fragments: `mint` appends to the list and relays the rest to the owner.

`breed` is a chain of three relays, to the owner of the matron, to the owner of the sire and back to
the initiator, who keeps the newborn under a provisional key: its position in the list `newBorns` of
the shard, with the top bit set. `registerNewBorns` sends a copy of that list to the global scope
and clears it; there each newborn gets its id, and one more relay moves the owner's entry from the
provisional key to the id.

`Kitty_uint256.prd` is a copy of this contract in which the number type of the genes and one line of
the newborn fragment are different. What they share is defined once, over a `Variant` that says what
they do not; `bigint` is the variant of `Kitty.prd`.

An array holds less than `2 ^ 32` elements, so that `length()` is the length of the list. A missing
key of a map reads as the default value, and writing to a field of a missing entry creates it. The
height of the block a fragment runs in is a field of the state, which the chain sets as it likes.

## Main definitions

* `State`, `Call`, `Relay`
* `machine` — the contract as a relay machine, by variant
* `sqrt`, `bigint` — the variant of `Kitty.prd`
* `Called`, `Delivered` — what a fragment that succeeds does

## Main results

* `sqrt_natCast` — `sqrt` is the integer square root
-/

namespace RelayContracts

namespace Preda

namespace KittyBreeding

open RelayMachine

/-! ### State -/

/-- `struct KittyInfo`. -/
structure KittyInfo (A : Type) where
  /-- True for a matron. -/
  gender : Bool
  /-- The block height at birth. -/
  birthTime : ℕ
  /-- The owner. -/
  owner : A
  deriving DecidableEq, Repr

/-- `struct Kitty`. -/
structure Kitty (γ : Type) where
  /-- The id, which for a newborn is the provisional key. -/
  id : ℕ
  /-- The genes. -/
  genes : γ
  /-- The matron's id. -/
  matronId : ℕ
  /-- The sire's id. -/
  sireId : ℕ
  /-- The block height at which it last bred. -/
  lastBreed : ℕ
  deriving DecidableEq, Repr

/-- The default value of `Kitty`. -/
def Kitty.zero {γ : Type} [Zero γ] : Kitty γ := ⟨0, 0, 0, 0, 0⟩

/-- The state of the contract. -/
structure State (A γ : Type) (k : ℕ) where
  /-- `__block.get_height()`. -/
  height : ℕ
  /-- `@global array<KittyInfo> allKitties`. -/
  allKitties : List (KittyInfo A)
  /-- `@shard array<KittyInfo> newBorns`. -/
  newBorns : Fin (2 ^ k) → List (KittyInfo A)
  /-- `@shard uint256 newBornNums`, which only `Kitty_uint256.prd` has. -/
  newBornNums : Fin (2 ^ k) → ℕ
  /-- `@address map<uint32, Kitty> myKitties`. -/
  myKitties : A → ℕ → Option (Kitty γ)

/-- The state at deployment. -/
def deployed (A γ : Type) (k : ℕ) : State A γ k := ⟨0, [], fun _ => [], fun _ => 0, fun _ _ => none⟩

/-- The exported functions, and the chain moving to another block. -/
inductive Call (A γ : Type) (k : ℕ) where
  /-- `mint(genes, gender, owner)`. -/
  | mint (genes : γ) (gender : Bool) (owner : A)
  /-- `breed(m, s, gender)`, called by `initiator`. -/
  | breed (initiator : A) (m s : ℕ) (gender : Bool)
  /-- `registerNewBorns()` on a shard. -/
  | registerNewBorns (shard : Fin (2 ^ k))
  /-- The chain moves to a block of this height. -/
  | newBlock (height : ℕ)
  deriving DecidableEq, Repr

/-- The relay bodies, with the address they are sent to and what they capture. -/
inductive Relay (A γ : Type) where
  /-- Of `mint`, to the owner. -/
  | storeMinted (self : A) (genes : γ) (gender : Bool) (id : ℕ)
  /-- Of `breed`, to the owner of the matron. -/
  | breedMatron (self initiator : A) (s m : ℕ) (gender : Bool)
  /-- Of `breed`, to the owner of the sire. -/
  | breedSire (self initiator : A) (mGenes : γ) (s m : ℕ) (gender : Bool)
  /-- Of `breed`, back to the initiator. -/
  | storeNewBorn (self : A) (s m : ℕ) (gender : Bool) (newGenes : γ) (birthTime : ℕ)
  /-- Of `registerNewBorns`, to the global scope. -/
  | collectNewBorns (newBorns : List (KittyInfo A))
  /-- Of `registerNewBorns`, to the owner of a newborn. -/
  | registerNewBorn (self : A) (newBornIndex id : ℕ)
  deriving DecidableEq, Repr

variable {A γ : Type} {k : ℕ}

namespace State

/-- `myKitties[id]` of an address. -/
def read [Zero γ] (self : A) (id : ℕ) (st : State A γ k) : Kitty γ :=
  (st.myKitties self id).getD Kitty.zero

/-- `newBorns.push(n)` on a shard. -/
def push (shard : Fin (2 ^ k)) (n : KittyInfo A) (st : State A γ k) : State A γ k :=
  { st with newBorns := Function.update st.newBorns shard (st.newBorns shard ++ [n]) }

variable [DecidableEq A]

/-- `myKitties[id] = new` of an address. -/
def put (self : A) (id : ℕ) (new : Kitty γ) (st : State A γ k) : State A γ k :=
  { st with
    myKitties := Function.update st.myKitties self
      (Function.update (st.myKitties self) id (some new)) }

/-- `myKitties.erase(id)` of an address. -/
def erase (self : A) (id : ℕ) (st : State A γ k) : State A γ k :=
  { st with
    myKitties := Function.update st.myKitties self
      (Function.update (st.myKitties self) id none) }

variable (self : A) (id : ℕ) (new : Kitty γ) (st : State A γ k)

@[simp] theorem put_height : (st.put self id new).height = st.height := rfl

@[simp] theorem put_allKitties : (st.put self id new).allKitties = st.allKitties := rfl

@[simp] theorem put_newBorns : (st.put self id new).newBorns = st.newBorns := rfl

@[simp] theorem erase_allKitties : (st.erase self id).allKitties = st.allKitties := rfl

@[simp] theorem erase_newBorns : (st.erase self id).newBorns = st.newBorns := rfl

omit [DecidableEq A] in
@[simp] theorem push_allKitties (shard : Fin (2 ^ k)) (n : KittyInfo A) :
    (st.push shard n).allKitties = st.allKitties := rfl

omit [DecidableEq A] in
@[simp] theorem push_myKitties (shard : Fin (2 ^ k)) (n : KittyInfo A) :
    (st.push shard n).myKitties = st.myKitties := rfl

@[simp] theorem put_myKitties_self : (st.put self id new).myKitties self id = some new := by
  simp [put]

@[simp] theorem erase_myKitties_self : (st.erase self id).myKitties self id = none := by
  simp [erase]

variable {self id} {a : A} {i : ℕ}

theorem put_myKitties_of_ne (hne : (a, i) ≠ (self, id)) :
    (st.put self id new).myKitties a i = st.myKitties a i := by
  refine (update_update_apply _ _ _ _ _ _).trans (if_neg ?_)
  rintro ⟨rfl, rfl⟩
  exact hne rfl

theorem erase_myKitties_of_ne (hne : (a, i) ≠ (self, id)) :
    (st.erase self id).myKitties a i = st.myKitties a i := by
  refine (update_update_apply _ _ _ _ _ _).trans (if_neg ?_)
  rintro ⟨rfl, rfl⟩
  exact hne rfl

end State

/-! ### The functions -/

/-- What the two files of the contract do not share. -/
structure Variant (A γ : Type) (k : ℕ) where
  /-- The expression `sqrt(m_genes) * sqrt(myKitties[s].genes)`. -/
  mixture : γ → γ → Except Fault γ
  /-- The statement that enters a newborn in the books of its shard. -/
  enter : Fin (2 ^ k) → KittyInfo A → State A γ k → Except Fault (State A γ k)
  /-- It touches nothing but these books. -/
  enter_frame : ∀ {shard n st st'}, enter shard n st = .ok st' →
    st'.height = st.height ∧ st'.allKitties = st.allKitties ∧ st'.myKitties = st.myKitties

/-- `create(gender, owner)`. -/
def create (gender : Bool) (owner : A) (st : State A γ k) : ℕ × State A γ k :=
  let id := st.allKitties.length
  (id, { st with allKitties := st.allKitties ++ [⟨gender, st.height, owner⟩] })

/-- `mint(genes, gender, owner)`. -/
def mint (genes : γ) (gender : Bool) (owner : A) (st : State A γ k) :
    Except Fault (Effect (State A γ k) (Relay A γ) Unit) :=
  let (id, st) := create gender owner st
  .ok ⟨st, (), [.storeMinted owner genes gender id]⟩

/-- `breed(m, s, gender)`. -/
def breed (initiator : A) (m s : ℕ) (gender : Bool) (st : State A γ k) :
    Except Fault (Effect (State A γ k) (Relay A γ) Unit) :=
  if m < st.allKitties.length then
    if s < st.allKitties.length then
      match st.allKitties[m]? with
      | none => .error .outOfRange
      | some matron =>
        if matron.gender then
          .ok ⟨st, (), [.breedMatron matron.owner initiator s m gender]⟩
        else .error .assertion
    else .error .assertion
  else .error .assertion

/-- The key a newborn is kept under: `0x80000000u32 | newBornIndex`. -/
def newBornKey (newBornIndex : ℕ) : ℕ := 0x80000000 ||| newBornIndex

/-- `registerNewBorns()`. -/
def registerNewBorns (shard : Fin (2 ^ k)) (st : State A γ k) :
    Except Fault (Effect (State A γ k) (Relay A γ) Unit) :=
  if (st.newBorns shard).length > 0 then
    .ok ⟨{ st with newBorns := Function.update st.newBorns shard [] }, (),
      [.collectNewBorns (st.newBorns shard)]⟩
  else .ok ⟨st, (), []⟩

/-- The loop of the relay of `registerNewBorns` to the global scope, from the index `i` on. -/
def collectLoop : List (KittyInfo A) → ℕ → List (KittyInfo A) →
    List (KittyInfo A) × List (Relay A γ)
  | [], _, allKitties => (allKitties, [])
  | n :: newBorns, i, allKitties =>
    let id := allKitties.length
    let (allKitties, relays) := collectLoop newBorns (i + 1) (allKitties ++ [n])
    (allKitties, .registerNewBorn n.owner i id :: relays)

/-- The relay of `registerNewBorns` to the global scope. -/
def collectNewBorns (newBorns : List (KittyInfo A)) (st : State A γ k) :
    Except Fault (Effect (State A γ k) (Relay A γ) Unit) :=
  let (allKitties, relays) := collectLoop newBorns 0 st.allKitties
  .ok ⟨{ st with allKitties }, (), relays⟩

variable [DecidableEq A]

/-- The relay of `mint`. -/
def storeMinted (self : A) (genes : γ) (id : ℕ) (st : State A γ k) :
    Except Fault (Effect (State A γ k) (Relay A γ) Unit) :=
  .ok ⟨st.put self id ⟨id, genes, 0xffffffff, 0xffffffff, st.height⟩, (), []⟩

/-- The relay of `breed` to the owner of the matron. -/
def breedMatron [Zero γ] (self initiator : A) (s m : ℕ) (gender : Bool) (st : State A γ k) :
    Except Fault (Effect (State A γ k) (Relay A γ) Unit) :=
  let st := st.put self m { st.read self m with lastBreed := st.height }
  match st.allKitties[s]? with
  | none => .error .outOfRange
  | some sire => .ok ⟨st, (), [.breedSire sire.owner initiator (st.read self m).genes s m gender]⟩

/-- The relay of `breed` to the owner of the sire. The source computes the mixture six times. -/
def breedSire [Zero γ] (V : Variant A γ k) (self initiator : A) (mGenes : γ) (s m : ℕ)
    (gender : Bool) (st : State A γ k) : Except Fault (Effect (State A γ k) (Relay A γ) Unit) := do
  let newGenes ← V.mixture mGenes (st.read self s).genes
  .ok ⟨st, (), [.storeNewBorn initiator s m gender newGenes st.height]⟩

/-- The relay of `breed` back to the initiator, on the initiator's shard. -/
def storeNewBorn (V : Variant A γ k) (shard : Fin (2 ^ k)) (self : A) (s m : ℕ) (gender : Bool)
    (newGenes : γ) (birthTime : ℕ) (st : State A γ k) :
    Except Fault (Effect (State A γ k) (Relay A γ) Unit) := do
  let idNb := newBornKey (st.newBorns shard).length
  let st := st.put self idNb ⟨idNb, newGenes, m, s, birthTime⟩
  let st ← V.enter shard ⟨gender, birthTime, self⟩ st
  .ok ⟨st, (), []⟩

/-- The relay of `registerNewBorns` to the owner of a newborn. -/
def registerNewBorn [Zero γ] (self : A) (newBornIndex id : ℕ) (st : State A γ k) :
    Except Fault (Effect (State A γ k) (Relay A γ) Unit) :=
  let idNb := newBornKey newBornIndex
  let st := st.put self id (st.read self idNb)
  .ok ⟨st.erase self idNb, (), []⟩

/-- A variant of the contract as a relay machine. -/
def machine [Zero γ] (X : Chain A) (V : Variant A γ X.shardOrder) :
    Machine (State A γ X.shardOrder) (Call A γ X.shardOrder) (Relay A γ) Unit Fault where
  call
    | .mint genes gender owner => mint genes gender owner
    | .breed initiator m s gender => breed initiator m s gender
    | .registerNewBorns shard => registerNewBorns shard
    | .newBlock height => fun st => .ok ⟨{ st with height }, (), []⟩
  relay
    | .storeMinted self genes _ id => storeMinted self genes id
    | .breedMatron self initiator s m gender => breedMatron self initiator s m gender
    | .breedSire self initiator mGenes s m gender => breedSire V self initiator mGenes s m gender
    | .storeNewBorn self s m gender newGenes birthTime =>
      storeNewBorn V (X.shardOf self) self s m gender newGenes birthTime
    | .collectNewBorns newBorns => collectNewBorns newBorns
    | .registerNewBorn self newBornIndex id => registerNewBorn self newBornIndex id

/-! ### The variant of `Kitty.prd` -/

/-- The loop of `sqrt`, with fuel. -/
def sqrtLoop (x : ℤ) : ℕ → ℤ → ℤ → ℤ
  | 0, _, y => y
  | fuel + 1, z, y => if z < y then sqrtLoop x fuel ((x / z + z) / 2) z else y

/-- `sqrt(x)`. -/
def sqrt (x : ℤ) : ℤ := sqrtLoop x x.toNat ((x + 1) / 2) x

theorem sqrtLoop_natCast (x : ℕ) : ∀ fuel z y : ℕ,
    sqrtLoop (x : ℤ) fuel (z : ℤ) (y : ℤ) = (newtonLoop x fuel z y : ℕ)
  | 0, _, _ => rfl
  | fuel + 1, z, y => by
    have hnext : ((x : ℤ) / z + z) / 2 = ((x / z + z) / 2 : ℕ) := by push_cast; rfl
    rw [sqrtLoop, newtonLoop, hnext, sqrtLoop_natCast x fuel]
    by_cases hlt : z < y
    · rw [if_pos hlt, if_pos (Int.ofNat_lt.mpr hlt)]
    · rw [if_neg hlt, if_neg (mt Int.ofNat_lt.mp hlt)]

/-- **`sqrt` is the integer square root.** -/
theorem sqrt_natCast (x : ℕ) : sqrt (x : ℤ) = (Nat.sqrt x : ℕ) := by
  have hstart : ((x : ℤ) + 1) / 2 = ((x + 1) / 2 : ℕ) := by push_cast; rfl
  rw [sqrt, Int.toNat_natCast, hstart, sqrtLoop_natCast, newtonLoop_self]

/-- The variant of `Kitty.prd`: genes are a `bigint`, and a newborn is pushed to `newBorns`. -/
def bigint (A : Type) (k : ℕ) : Variant A ℤ k where
  mixture x y := .ok (sqrt x * sqrt y)
  enter shard n st := .ok (st.push shard n)
  enter_frame h := by
    cases h
    exact ⟨rfl, rfl, rfl⟩

/-- The contract of `Kitty.prd`. -/
abbrev kitty (X : Chain A) :
    Machine (State A ℤ X.shardOrder) (Call A ℤ X.shardOrder) (Relay A ℤ) Unit Fault :=
  machine X (bigint A X.shardOrder)

/-! ### What a fragment that succeeds does -/

theorem newBornKey_eq_or (i : ℕ) : newBornKey i = 2 ^ 31 ||| i := by
  rw [newBornKey, show (0x80000000 : ℕ) = 2 ^ 31 by norm_num]

/-- The key of a newborn has its top bit set. -/
theorem newBornKey_ge (i : ℕ) : 2 ^ 31 ≤ newBornKey i := by
  rw [newBornKey_eq_or]
  exact Nat.left_le_or

theorem newBornKey_of_lt {i : ℕ} (hi : i < 2 ^ 31) : newBornKey i = 2 ^ 31 + i := by
  rw [newBornKey_eq_or]
  simpa using (Nat.two_pow_add_eq_or_of_lt hi 1).symm

/-- The relays that register the newborns from the index `i` on under the ids from `id` on. -/
def registrations : ℕ → ℕ → List (KittyInfo A) → List (Relay A γ)
  | _, _, [] => []
  | i, id, n :: newBorns => .registerNewBorn n.owner i id :: registrations (i + 1) (id + 1) newBorns

omit [DecidableEq A] in
theorem collectLoop_eq (newBorns : List (KittyInfo A)) (i : ℕ) (allKitties : List (KittyInfo A)) :
    collectLoop (γ := γ) newBorns i allKitties =
      (allKitties ++ newBorns, registrations i allKitties.length newBorns) := by
  induction newBorns generalizing i allKitties with
  | nil => rw [collectLoop, registrations, List.append_nil]
  | cons n newBorns ih =>
    rw [collectLoop, ih, List.append_assoc, List.length_append]
    rfl

/-- What a call that succeeds does. -/
inductive Called (st : State A γ k) :
    Call A γ k → Effect (State A γ k) (Relay A γ) Unit → Prop
  /-- A mint enters the kitty in `allKitties` and relays its genes. -/
  | mint (genes : γ) (gender : Bool) (owner : A) : Called st (.mint genes gender owner)
      ⟨{ st with allKitties := st.allKitties ++ [⟨gender, st.height, owner⟩] }, (),
        [.storeMinted owner genes gender st.allKitties.length]⟩
  /-- A breed is accepted if both parents are there and one is a matron. -/
  | breed {initiator : A} {m s : ℕ} {gender : Bool} {matron : KittyInfo A}
      (hm : st.allKitties[m]? = some matron) (hs : s < st.allKitties.length)
      (hg : matron.gender = true) : Called st (.breed initiator m s gender)
      ⟨st, (), [.breedMatron matron.owner initiator s m gender]⟩
  /-- The newborns of a shard are sent off. -/
  | register {shard : Fin (2 ^ k)} (hsome : st.newBorns shard ≠ []) :
      Called st (.registerNewBorns shard)
      ⟨{ st with newBorns := Function.update st.newBorns shard [] }, (),
        [.collectNewBorns (st.newBorns shard)]⟩
  /-- There are none. -/
  | registerNone {shard : Fin (2 ^ k)} (hnone : st.newBorns shard = []) :
      Called st (.registerNewBorns shard) ⟨st, (), []⟩
  /-- The block changes. -/
  | newBlock (height : ℕ) : Called st (.newBlock height) ⟨{ st with height }, (), []⟩

/-- What a relay that succeeds does. -/
inductive Delivered [Zero γ] (X : Chain A) (V : Variant A γ X.shardOrder)
    (st : State A γ X.shardOrder) :
    Relay A γ → Effect (State A γ X.shardOrder) (Relay A γ) Unit → Prop
  /-- The owner stores a minted kitty. -/
  | storeMinted (self : A) (genes : γ) (gender : Bool) (id : ℕ) :
      Delivered X V st (.storeMinted self genes gender id)
        ⟨st.put self id ⟨id, genes, 0xffffffff, 0xffffffff, st.height⟩, (), []⟩
  /-- The matron's genes are sent on. -/
  | breedMatron {self initiator : A} {s m : ℕ} {gender : Bool} {sire : KittyInfo A}
      (hs : st.allKitties[s]? = some sire) :
      Delivered X V st (.breedMatron self initiator s m gender)
        ⟨st.put self m { st.read self m with lastBreed := st.height }, (),
          [.breedSire sire.owner initiator (st.read self m).genes s m gender]⟩
  /-- The mixture is sent on. -/
  | breedSire {self initiator : A} {mGenes newGenes : γ} {s m : ℕ} {gender : Bool}
      (hmix : V.mixture mGenes (st.read self s).genes = .ok newGenes) :
      Delivered X V st (.breedSire self initiator mGenes s m gender)
        ⟨st, (), [.storeNewBorn initiator s m gender newGenes st.height]⟩
  /-- The initiator stores a newborn. -/
  | storeNewBorn {self : A} {s m : ℕ} {gender : Bool} {newGenes : γ} {birthTime idNb : ℕ}
      {st' : State A γ X.shardOrder} (hid : idNb = newBornKey (st.newBorns (X.shardOf self)).length)
      (hent : V.enter (X.shardOf self) ⟨gender, birthTime, self⟩
        (st.put self idNb ⟨idNb, newGenes, m, s, birthTime⟩) = .ok st') :
      Delivered X V st (.storeNewBorn self s m gender newGenes birthTime) ⟨st', (), []⟩
  /-- The newborns get their ids. -/
  | collectNewBorns (newBorns : List (KittyInfo A)) :
      Delivered X V st (.collectNewBorns newBorns)
        ⟨{ st with allKitties := st.allKitties ++ newBorns }, (),
          registrations 0 st.allKitties.length newBorns⟩
  /-- The owner moves a newborn to its id. -/
  | registerNewBorn (self : A) (newBornIndex id : ℕ) :
      Delivered X V st (.registerNewBorn self newBornIndex id)
        ⟨(st.put self id (st.read self (newBornKey newBornIndex))).erase self
          (newBornKey newBornIndex), (), []⟩

section Specs

variable [Zero γ] {X : Chain A} {V : Variant A γ X.shardOrder} {st : State A γ X.shardOrder}
  {eff : Effect (State A γ X.shardOrder) (Relay A γ) Unit}

omit [DecidableEq A] [Zero γ] in
theorem called_of_breed {initiator : A} {m s : ℕ} {gender : Bool} {st : State A γ k}
    {eff : Effect (State A γ k) (Relay A γ) Unit} (h : breed initiator m s gender st = .ok eff) :
    Called st (.breed initiator m s gender) eff := by
  rw [breed] at h
  split at h
  · split at h
    · split at h
      · cases h
      · split at h
        · cases h
          exact .breed ‹_› ‹_› ‹_›
        · cases h
    · cases h
  · cases h

omit [DecidableEq A] [Zero γ] in
theorem registerNewBorns_ne_error (shard : Fin (2 ^ k)) (st : State A γ k) {f : Fault} :
    registerNewBorns shard st ≠ .error f := by
  rw [registerNewBorns]
  split <;> intro h <;> cases h

theorem called_of_ok {c : Call A γ X.shardOrder} (h : (machine X V).call c st = .ok eff) :
    Called st c eff := by
  cases c with
  | mint genes gender owner =>
    cases h
    exact .mint genes gender owner
  | breed initiator m s gender => exact called_of_breed h
  | registerNewBorns shard =>
    have h : registerNewBorns shard st = .ok eff := h
    rw [registerNewBorns] at h
    split at h
    · rename_i hlen
      cases h
      exact .register (List.ne_nil_of_length_pos hlen)
    · rename_i hlen
      cases h
      exact .registerNone (List.length_eq_zero_iff.mp (Nat.eq_zero_of_not_pos hlen))
  | newBlock height =>
    cases h
    exact .newBlock height

theorem delivered_of_ok {r : Relay A γ} (h : (machine X V).relay r st = .ok eff) :
    Delivered X V st r eff := by
  cases r with
  | storeMinted self genes gender id =>
    cases h
    exact .storeMinted self genes gender id
  | breedMatron self initiator s m gender =>
    have h : breedMatron self initiator s m gender st = .ok eff := h
    rw [breedMatron] at h
    dsimp only at h
    split at h
    · cases h
    · rename_i sire hs
      cases h
      have hread : ∀ x : Kitty γ, ((st.put self m x).read self m).genes = x.genes := by
        simp [State.read]
      rw [hread]
      exact .breedMatron hs
  | breedSire self initiator mGenes s m gender =>
    obtain ⟨newGenes, hmix, h⟩ := exists_of_bind_eq_ok h
    cases h
    exact .breedSire hmix
  | storeNewBorn self s m gender newGenes birthTime =>
    obtain ⟨st', hent, h⟩ := exists_of_bind_eq_ok h
    cases h
    exact .storeNewBorn rfl hent
  | collectNewBorns newBorns =>
    have h : collectNewBorns newBorns st = .ok eff := h
    rw [collectNewBorns, collectLoop_eq] at h
    cases h
    exact .collectNewBorns newBorns
  | registerNewBorn self newBornIndex id =>
    cases h
    exact .registerNewBorn self newBornIndex id

end Specs

end KittyBreeding

end Preda

end RelayContracts
