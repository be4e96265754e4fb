import RelayContracts.Preda.KittyUint256
import RelayContracts.Synchronous

/-!
# The Sei kitty contract

The contract of `KittyBreeding.sol` among the Sei contracts. It has the list and the maps of the
PREDA contract, and as there a kitty is in both: `allKitties` says who owns it, and `myKitties` of
its owner holds its genes. What PREDA relays from one owner to the next is here a nested call, so
`breed` either does everything or reverts.

Nothing is ever pushed to `newBorns`, whose length makes the key of a newborn, and so every newborn
is stored under `2 ^ 255`. The ids of minted kitties are smaller than that for the first `2 ^ 255`
mints. Up to then the maps are a function of the history, apart from `lastBreed` (`Booked`): below
`2 ^ 255` they hold the mints, and at `2 ^ 255` the last newborn of each transaction origin.

The number of the block is a field of the state, which the chain sets as it likes. An entry of a
mapping that was never written is `none`; it reads as zero, and writing to a field of it creates it.

## Main definitions

* `State`, `Call`, `machine` — the contract
* `mints`, `births` — what was minted and born in a history
* `entry` — what the history says about `myKitties`

## Main results

* `genesMix_eq_ok` — a newborn gets the product of the square roots
* `breed_eq_ok` — when `breed` succeeds, and what it does then
* `booked_of_run` — the maps are as the history says
* `registry_consistent` — the list and the maps agree on every minted kitty
-/

namespace RelayContracts

namespace Sei

namespace KittyBreeding

open RelayMachine
open Preda.KittyBreeding (KittyInfo Kitty Minted Birth)

/-! ### State -/

/-- The state of the contract. -/
structure State (A : Type) where
  /-- `block.number`. -/
  blockNumber : ℕ
  /-- `KittyInfo[] allKitties`. -/
  allKitties : List (KittyInfo A)
  /-- `KittyInfo[] newBorns`. -/
  newBorns : List (KittyInfo A)
  /-- `uint32 newBornNums`. -/
  newBornNums : ℕ
  /-- `mapping(address=>mapping(uint=>Kitty)) myKitties`. -/
  myKitties : A → ℕ → Option (Kitty ℕ)

/-- The state at deployment. -/
def deployed (A : Type) : State A := ⟨0, [], [], 0, fun _ _ => none⟩

/-- The public functions, with the transaction's origin where it is looked at, and the chain moving
to another block. -/
inductive Call (A : Type) where
  /-- `mint(owner, genes, gender)`. -/
  | mint (owner : A) (genes : ℕ) (gender : Bool)
  /-- `_mint(owner, genes, gender)`. -/
  | mintInner (owner : A) (genes : ℕ) (gender : Bool)
  /-- `_addNewKittyToAddr(_scope, genes, id)`. -/
  | addNewKittyToAddr₃ (scope : A) (genes id : ℕ)
  /-- `_addNewKittyToAddr(_scope, genes, id, matronId, sireId)`. -/
  | addNewKittyToAddr₅ (scope : A) (genes id matronId sireId : ℕ)
  /-- `breed(_scope, m, s, gender)`. -/
  | breed (origin scope : A) (m s : ℕ) (gender : Bool)
  /-- `addMGenes(_scope, m, s, gender)`. -/
  | addMGenes (origin scope : A) (m s : ℕ) (gender : Bool)
  /-- `addSGenes(_scope, m_genes, m, s, gender)`. -/
  | addSGenes (origin scope : A) (mGenes m s : ℕ) (gender : Bool)
  /-- `addNewBorn(_scope, m, s, gender, new_genes)`. -/
  | addNewBorn (origin scope : A) (m s : ℕ) (gender : Bool) (newGenes : ℕ)
  /-- The chain moves to a block of this number. -/
  | newBlock (number : ℕ)
  deriving DecidableEq, Repr

/-- Whether a call is one of `mint` or `breed`, and not of a helper function. -/
def Call.isOperation {A : Type} : Call A → Bool
  | .mint _ _ _ => true
  | .breed _ _ _ _ _ => true
  | .newBlock _ => true
  | _ => false

/-- Whether a call is one of `mint`. -/
def Call.isMint {A : Type} : Call A → Bool
  | .mint _ _ _ => true
  | .newBlock _ => true
  | _ => false

variable {A : Type}

/-- A kitty, but for the block it last bred in. -/
def body (k : Kitty ℕ) : Kitty ℕ := { k with lastBreed := 0 }

theorem eq_of_body_eq {k k' : Kitty ℕ} (hbody : body k' = body k) :
    k' = { k with lastBreed := k'.lastBreed } := by
  cases k
  cases k'
  simp only [body, Kitty.mk.injEq, and_true] at hbody ⊢
  exact hbody

namespace State

/-- `allKitties[i]`. -/
def info (i : ℕ) (st : State A) : Except Fault (KittyInfo A) :=
  match st.allKitties[i]? with
  | some n => .ok n
  | none => .error .outOfRange

/-- `myKitties[scope][id]`. -/
def read (scope : A) (id : ℕ) (st : State A) : Kitty ℕ := (st.myKitties scope id).getD Kitty.zero

theorem info_eq_ok {i : ℕ} {st : State A} {n : KittyInfo A} :
    st.info i = .ok n ↔ st.allKitties[i]? = some n := by
  rw [info]
  cases st.allKitties[i]? with
  | none => simp
  | some n' => simp

variable [DecidableEq A]

/-- `myKitties[scope][id] = new`. -/
def put (scope : A) (id : ℕ) (new : Kitty ℕ) (st : State A) : State A :=
  { st with
    myKitties := Function.update st.myKitties scope
      (Function.update (st.myKitties scope) id (some new)) }

/-- `myKitties[scope][id].lastBreed = block.number`. -/
def touch (scope : A) (id : ℕ) (st : State A) : State A :=
  st.put scope id { st.read scope id with lastBreed := st.blockNumber }

theorem put_myKitties (scope : A) (id : ℕ) (new : Kitty ℕ) (st : State A) (a : A) (i : ℕ) :
    (st.put scope id new).myKitties a i =
      if scope = a ∧ id = i then some new else st.myKitties a i :=
  update_update_apply st.myKitties scope id (some new) a i

/-- Writing `lastBreed` of an entry that is there changes nothing else. -/
theorem touch_body {scope : A} {id : ℕ} {st : State A} {k : Kitty ℕ}
    (hk : st.myKitties scope id = some k) (a : A) (i : ℕ) :
    ((st.touch scope id).myKitties a i).map body = (st.myKitties a i).map body := by
  rw [touch, put_myKitties, read, hk]
  by_cases hkey : scope = a ∧ id = i
  · obtain ⟨rfl, rfl⟩ := hkey
    rw [if_pos ⟨rfl, rfl⟩, hk]
    rfl
  · rw [if_neg hkey]

/-- `lastBreed` is not the genes. -/
theorem touch_genes (scope : A) (id : ℕ) (st : State A) (a : A) (i : ℕ) :
    ((st.touch scope id).read a i).genes = (st.read a i).genes := by
  rw [read, touch, put_myKitties]
  by_cases hkey : scope = a ∧ id = i
  · obtain ⟨rfl, rfl⟩ := hkey
    rw [if_pos ⟨rfl, rfl⟩]
    rfl
  · rw [if_neg hkey]
    rfl

end State

/-! ### The functions -/

/-- `sqrt(x)`. -/
def sqrt (x : ℕ) : Except Fault ℕ := Preda.KittyBreeding.Uint256.sqrt .trap x

/-- The expression `sqrt(m_genes) * sqrt(s_gengs)`. -/
def mixture (mGenes sGenes : ℕ) : Except Fault ℕ := do
  let a ← sqrt mGenes
  let b ← sqrt sGenes
  mulU .trap 256 a b

/-- `genesMix(m_genes, s_gengs)`, which computes its result six times. -/
def genesMix (mGenes sGenes : ℕ) : Except Fault ℕ := do
  let _ ← mixture mGenes sGenes
  let _ ← mixture mGenes sGenes
  let _ ← mixture mGenes sGenes
  let _ ← mixture mGenes sGenes
  let _ ← mixture mGenes sGenes
  let newGenes ← mixture mGenes sGenes
  .ok newGenes

/-- The key of a newborn: `newBorns.length | (1 << 255)`. -/
def newBornKey (length : ℕ) : ℕ := length ||| 1 <<< 255

theorem newBornKey_zero : newBornKey 0 = 2 ^ 255 := rfl

/-- `create(gender, owner)`. -/
def create (gender : Bool) (owner : A) (st : State A) : ℕ × State A :=
  let id := st.allKitties.length
  (id, { st with allKitties := st.allKitties ++ [⟨gender, st.blockNumber, owner⟩] })

variable [DecidableEq A]

/-- `_addNewKittyToAddr(_scope, genes, id, matronId, sireId)`. -/
def addNewKittyToAddr₅ (scope : A) (genes id matronId sireId : ℕ) (st : State A) : State A :=
  st.put scope id ⟨id, genes, matronId, sireId, st.blockNumber⟩

/-- `_addNewKittyToAddr(_scope, genes, id)`. -/
def addNewKittyToAddr₃ (scope : A) (genes id : ℕ) (st : State A) : State A :=
  addNewKittyToAddr₅ scope genes id (2 ^ 256 - 1) (2 ^ 256 - 1) st

/-- `_mint(owner, genes, gender)`. -/
def mintInner (owner : A) (genes : ℕ) (gender : Bool) (st : State A) : State A :=
  let (id, st) := create gender owner st
  addNewKittyToAddr₃ owner genes id st

/-- `mint(owner, genes, gender)`. -/
def mint (owner : A) (genes : ℕ) (gender : Bool) (st : State A) : State A :=
  mintInner owner genes gender st

/-- `addNewBorn(_scope, m, s, gender, new_genes)`. -/
def addNewBorn (origin scope : A) (m s : ℕ) (gender : Bool) (newGenes : ℕ) (st : State A) :
    Except Fault (State A) := do
  let birthTime := st.blockNumber
  let idNb := newBornKey st.newBorns.length
  let st := addNewKittyToAddr₅ scope newGenes idNb m s st
  -- The record is filled in and goes nowhere.
  let _n : KittyInfo A := ⟨gender, birthTime, origin⟩
  let newBornNums ← addU .trap 32 st.newBornNums 1
  .ok { st with newBornNums }

/-- `addSGenes(_scope, m_genes, m, s, gender)`. -/
def addSGenes (origin scope : A) (mGenes m s : ℕ) (gender : Bool) (st : State A) :
    Except Fault (State A) := do
  let newGenes ← genesMix mGenes (st.read scope s).genes
  addNewBorn origin origin m s gender newGenes st

/-- `addMGenes(_scope, m, s, gender)`. -/
def addMGenes (origin scope : A) (m s : ℕ) (gender : Bool) (st : State A) :
    Except Fault (State A) := do
  let st := st.touch scope m
  let sire ← st.info s
  addSGenes origin sire.owner (st.read scope m).genes m s gender st

/-- `breed(_scope, m, s, gender)`, which does not look at its scope. -/
def breed (origin _scope : A) (m s : ℕ) (gender : Bool) (st : State A) : Except Fault (State A) :=
  if m < st.allKitties.length then
    if s < st.allKitties.length then do
      let matron ← st.info m
      if matron.gender then do
        let sire ← st.info s
        if !sire.gender then
          addMGenes origin matron.owner m s gender st
        else .error .assertion
      else .error .assertion
    else .error .assertion
  else .error .assertion

/-- The state after a call. -/
def execute : Call A → State A → Except Fault (State A)
  | .mint owner genes gender, st => .ok (mint owner genes gender st)
  | .mintInner owner genes gender, st => .ok (mintInner owner genes gender st)
  | .addNewKittyToAddr₃ scope genes id, st => .ok (addNewKittyToAddr₃ scope genes id st)
  | .addNewKittyToAddr₅ scope genes id matronId sireId, st =>
    .ok (addNewKittyToAddr₅ scope genes id matronId sireId st)
  | .breed origin scope m s gender, st => breed origin scope m s gender st
  | .addMGenes origin scope m s gender, st => addMGenes origin scope m s gender st
  | .addSGenes origin scope mGenes m s gender, st => addSGenes origin scope mGenes m s gender st
  | .addNewBorn origin scope m s gender newGenes, st =>
    addNewBorn origin scope m s gender newGenes st
  | .newBlock number, st => .ok { st with blockNumber := number }

/-- The contract as a machine without relays. -/
def machine : Machine (State A) (Call A) Empty Unit Fault where
  call k st := do
    let st ← execute k st
    .ok ⟨st, (), []⟩
  relay m := m.elim

theorem call_eq_ok {k : Call A} {st : State A} {eff : Effect (State A) Empty Unit} :
    machine.call k st = .ok eff ↔ ∃ st', execute k st = .ok st' ∧ eff = ⟨st', (), []⟩ :=
  bind_ok_eq_ok

theorem call_eq_error {k : Call A} {st : State A} {f : Fault} :
    machine.call k st = .error f ↔ execute k st = .error f :=
  bind_ok_eq_error

/-! ### Breeding -/

theorem mixture_eq : mixture = mulSqrtU .trap 256 := by
  funext mGenes sGenes
  simp only [mixture, mulSqrtU, sqrt, Preda.KittyBreeding.Uint256.sqrt_eq_sqrtU]

theorem genesMix_eq (mGenes sGenes : ℕ) : genesMix mGenes sGenes = mixture mGenes sGenes := by
  rw [genesMix]
  cases mixture mGenes sGenes with
  | error f => rfl
  | ok g => rfl

/-- **A newborn gets the product of the square roots** of its parents' genes, if both are below the
largest value of the type. -/
theorem genesMix_eq_ok {mGenes sGenes g : ℕ} :
    genesMix mGenes sGenes = .ok g ↔
      mGenes < 2 ^ 256 - 1 ∧ sGenes < 2 ^ 256 - 1 ∧ g = Nat.sqrt mGenes * Nat.sqrt sGenes := by
  rw [genesMix_eq, mixture_eq, mulSqrtU_trap_eq_ok]
  constructor
  · rintro ⟨hm, hs, rfl⟩
    exact ⟨by omega, by omega, rfl⟩
  · rintro ⟨hm, hs, rfl⟩
    exact ⟨by omega, by omega, rfl⟩

/-- What the four `require` of `breed` ask for. -/
structure Parents (st : State A) (m s : ℕ) (matron sire : KittyInfo A) : Prop where
  /-- There is a matron. -/
  matron_eq : st.allKitties[m]? = some matron
  /-- There is a sire. -/
  sire_eq : st.allKitties[s]? = some sire
  /-- The matron is one. -/
  matron_gender : matron.gender = true
  /-- The sire is one. -/
  sire_gender : sire.gender = false

/-- What `breed` needs to succeed. -/
structure Breedable (st : State A) (m s : ℕ) (matron sire : KittyInfo A) : Prop
    extends Parents st m s matron sire where
  /-- The matron's genes have a square root. -/
  matron_genes : (st.read matron.owner m).genes < 2 ^ 256 - 1
  /-- The sire's genes have a square root. -/
  sire_genes : (st.read sire.owner s).genes < 2 ^ 256 - 1
  /-- There is room in the counter. -/
  room : st.newBornNums + 1 < 2 ^ 32

namespace State

/-- The state after a `breed` that succeeds. -/
def bred (origin : A) (m s : ℕ) (matron sire : KittyInfo A) (st : State A) : State A :=
  let key := newBornKey st.newBorns.length
  let genes := Nat.sqrt (st.read matron.owner m).genes * Nat.sqrt (st.read sire.owner s).genes
  { (st.touch matron.owner m).put origin key ⟨key, genes, m, s, st.blockNumber⟩ with
    newBornNums := st.newBornNums + 1 }

end State

section Breed

variable {origin : A} (scope : A) {m s : ℕ} {gender : Bool} {st st' : State A}

/-- **When `breed` succeeds**, and what it does then. -/
theorem breed_eq_ok : breed origin scope m s gender st = .ok st' ↔
    ∃ matron sire, Breedable st m s matron sire ∧ st' = st.bred origin m s matron sire := by
  constructor
  · intro h
    obtain ⟨-, h⟩ := of_require_eq_ok h
    obtain ⟨-, h⟩ := of_require_eq_ok h
    obtain ⟨matron, hmatron, h⟩ := exists_of_bind_eq_ok h
    obtain ⟨hmgender, h⟩ := of_require_eq_ok h
    obtain ⟨sire, hsire, h⟩ := exists_of_bind_eq_ok h
    obtain ⟨hsgender, h⟩ := of_require_eq_ok h
    obtain ⟨sire', hsire', h⟩ := exists_of_bind_eq_ok h
    obtain rfl : sire = sire' := by
      cases hsire.symm.trans hsire'
      rfl
    obtain ⟨g, hg, h⟩ := exists_of_bind_eq_ok h
    obtain ⟨hmgenes, hsgenes, rfl⟩ := genesMix_eq_ok.mp hg
    obtain ⟨n, hn, h⟩ := exists_of_bind_eq_ok h
    obtain ⟨hroom, rfl⟩ := addU_trap_eq_ok.mp hn
    rw [State.touch_genes] at hmgenes hsgenes
    rw [State.touch_genes, State.touch_genes] at h
    cases h
    exact ⟨matron, sire, ⟨⟨State.info_eq_ok.mp hmatron, State.info_eq_ok.mp hsire, hmgender,
      by simpa using hsgender⟩, hmgenes, hsgenes, hroom⟩, rfl⟩
  · rintro ⟨matron, sire, ⟨⟨hmatron, hsire, hmgender, hsgender⟩, hmgenes, hsgenes, hroom⟩, rfl⟩
    have hm : m < st.allKitties.length := (List.getElem?_eq_some_iff.mp hmatron).1
    have hs : s < st.allKitties.length := (List.getElem?_eq_some_iff.mp hsire).1
    have hmix : genesMix ((st.touch matron.owner m).read matron.owner m).genes
        ((st.touch matron.owner m).read sire.owner s).genes = .ok
          (Nat.sqrt (st.read matron.owner m).genes * Nat.sqrt (st.read sire.owner s).genes) := by
      rw [State.touch_genes, State.touch_genes]
      exact genesMix_eq_ok.mpr ⟨hmgenes, hsgenes, rfl⟩
    have hsire' : (st.touch matron.owner m).info s = .ok sire := State.info_eq_ok.mpr hsire
    rw [breed, if_pos hm, if_pos hs, State.info_eq_ok.mpr hmatron, ok_bind, if_pos hmgender,
      State.info_eq_ok.mpr hsire, ok_bind, if_pos (by simp [hsgender]), addMGenes, hsire', ok_bind,
      addSGenes, hmix, ok_bind, addNewBorn]
    show (addU .trap 32 st.newBornNums 1 >>= fun n => .ok _) = _
    rw [addU_of_lt hroom]
    rfl

theorem Breedable.call_eq {matron sire : KittyInfo A} (hbreed : Breedable st m s matron sire)
    (origin scope : A) (gender : Bool) :
    machine.call (.breed origin scope m s gender) st =
      .ok ⟨st.bred origin m s matron sire, (), []⟩ :=
  call_eq_ok.mpr ⟨_, (breed_eq_ok scope).mpr ⟨matron, sire, hbreed, rfl⟩, rfl⟩

end Breed

/-! ### What the history says -/

/-- The events of a run of the contract, latest first. -/
abbrev History (A : Type) := List (Event (Call A) Empty Unit Fault)

/-- The mints, oldest first. A mint does not fail. -/
def mints : History A → List (Minted A ℕ)
  | [] => []
  | .call (.mint owner genes gender) _ :: h => mints h ++ [⟨genes, gender, owner⟩]
  | _ :: h => mints h

/-- The genes passed to the `id`-th mint. -/
def mintedGenes (h : History A) (id : ℕ) : ℕ := (mints h)[id]?.elim 0 Minted.genes

/-- The newborns of the breeds that succeeded, latest first. -/
def births : History A → List (Birth A ℕ)
  | [] => []
  | .call (.breed origin _ m s gender) (.ok _) :: h =>
    ⟨⟨origin, m, s, gender⟩, Nat.sqrt (mintedGenes h m) * Nat.sqrt (mintedGenes h s)⟩ :: births h
  | _ :: h => births h

/-- What the history says about `myKitties[a][key]`: there is a minted kitty below `2 ^ 255`, and
the last newborn at `2 ^ 255`. -/
def entry (h : History A) (a : A) (key : ℕ) : Option (Kitty ℕ) :=
  if key < 2 ^ 255 then
    ((mints h)[key]?.filter fun w => w.owner = a).map fun w =>
      ⟨key, w.genes, 2 ^ 256 - 1, 2 ^ 256 - 1, 0⟩
  else if key = 2 ^ 255 then
    ((births h).find? fun b => b.initiator = a).map fun b => ⟨key, b.genes, b.m, b.s, 0⟩
  else none

/-- The state is as the history says. -/
structure Booked (h : History A) (st : State A) : Prop where
  /-- No newborn is on the list. -/
  newBorns : st.newBorns = []
  /-- The list has the owners of the minted kitties. -/
  owners : st.allKitties.map KittyInfo.owner = (mints h).map Minted.owner
  /-- The newborns are counted. -/
  newBornNums : st.newBornNums = (births h).length
  /-- The matron of a newborn was minted. -/
  matrons : ∀ b ∈ births h, b.m < (mints h).length
  /-- The maps hold what is expected. -/
  myKitties : ∀ a key, (st.myKitties a key).map body = entry h a key

variable {h h₁ : History A} {st : State A} {a : A} {key : ℕ}

theorem entry_of_lt (hkey : key < 2 ^ 255) :
    entry h a key = ((mints h)[key]?.filter fun w => w.owner = a).map fun w =>
      ⟨key, w.genes, 2 ^ 256 - 1, 2 ^ 256 - 1, 0⟩ := if_pos hkey

theorem entry_newborn : entry h a (2 ^ 255) =
    ((births h).find? fun b => b.initiator = a).map fun b =>
      ⟨2 ^ 255, b.genes, b.m, b.s, 0⟩ := by
  rw [entry, if_neg (lt_irrefl _), if_pos rfl]

theorem entry_of_gt (hkey : 2 ^ 255 < key) : entry h a key = none := by
  rw [entry, if_neg hkey.not_gt, if_neg hkey.ne']

/-- A mint makes one entry. -/
theorem entry_mint {owner : A} {genes : ℕ} {gender : Bool} {r : Except Fault Unit}
    (hn : (mints h).length < 2 ^ 255) :
    entry (.call (.mint owner genes gender) r :: h) a key =
      if owner = a ∧ (mints h).length = key then
        some ⟨key, genes, 2 ^ 256 - 1, 2 ^ 256 - 1, 0⟩
      else entry h a key := by
  by_cases hkey : key < 2 ^ 255
  · rw [entry_of_lt hkey, entry_of_lt hkey, mints]
    rcases lt_trichotomy key (mints h).length with hlt | rfl | hgt
    · rw [List.getElem?_append_left hlt, if_neg fun heq => hlt.ne' heq.2]
    · rw [List.getElem?_concat_length, List.getElem?_eq_none le_rfl]
      by_cases ha : owner = a
      · simp [ha]
      · simp [ha]
    · rw [List.getElem?_eq_none (by simpa using Nat.succ_le_of_lt hgt),
        List.getElem?_eq_none hgt.le, if_neg fun heq => hgt.ne heq.2]
  · have hne : ¬ (owner = a ∧ (mints h).length = key) := fun heq => hkey (heq.2 ▸ hn)
    rw [if_neg hne, entry, entry, if_neg hkey, if_neg hkey]
    rfl

/-- A breed that succeeds makes one entry. -/
theorem entry_breed {origin scope : A} {m s : ℕ} {gender : Bool} :
    entry (.call (.breed origin scope m s gender) (.ok ()) :: h) a key =
      if origin = a ∧ 2 ^ 255 = key then
        some ⟨key, Nat.sqrt (mintedGenes h m) * Nat.sqrt (mintedGenes h s), m, s, 0⟩
      else entry h a key := by
  by_cases hkey : key = 2 ^ 255
  · obtain rfl := hkey
    rw [entry_newborn, entry_newborn, births, List.find?_cons]
    by_cases ha : origin = a
    · simp [ha]
    · simp [ha]
  · rw [if_neg fun heq => hkey heq.2.symm, entry, entry, if_neg hkey, if_neg hkey]
    rfl

omit [DecidableEq A] in
theorem mints_mono (hs : h₁ <:+ h) : mints h₁ <+: mints h := by
  obtain ⟨h₂, rfl⟩ := hs
  induction h₂ with
  | nil => exact List.prefix_rfl
  | cons e h₂ ih =>
    refine ih.trans ?_
    cases e with
    | deliver m r => exact m.elim
    | call k r =>
      cases k with
      | mint owner genes gender => exact List.prefix_append _ _
      | _ => exact List.prefix_rfl

namespace Booked

theorem length_eq (hb : Booked h st) : st.allKitties.length = (mints h).length := by
  simpa using congrArg List.length hb.owners

/-- A kitty of the list is in the map of its owner, as it was minted. -/
theorem registered (hb : Booked h st) (hn : (mints h).length ≤ 2 ^ 255) {id : ℕ}
    {info : KittyInfo A} (hi : st.allKitties[id]? = some info) :
    ∃ w t, (mints h)[id]? = some w ∧ w.owner = info.owner ∧
      st.myKitties info.owner id = some ⟨id, w.genes, 2 ^ 256 - 1, 2 ^ 256 - 1, t⟩ := by
  have howner : (mints h)[id]?.map Minted.owner = some info.owner := by
    rw [← List.getElem?_map, ← hb.owners, List.getElem?_map, hi, Option.map_some]
  obtain ⟨w, hw, howner⟩ := Option.map_eq_some_iff.mp howner
  have hlt : id < 2 ^ 255 := (List.getElem?_eq_some_iff.mp hw).1.trans_le hn
  have hmap := hb.myKitties info.owner id
  rw [entry_of_lt hlt, hw, Option.filter_some_pos (by simpa using howner), Option.map_some] at hmap
  obtain ⟨k, hk, hbody⟩ := Option.map_eq_some_iff.mp hmap
  refine ⟨w, k.lastBreed, hw, howner, ?_⟩
  rw [hk, ← eq_of_body_eq (k := ⟨id, w.genes, 2 ^ 256 - 1, 2 ^ 256 - 1, 0⟩) hbody]

/-- The genes that `breed` reads are those passed to `mint`. -/
theorem read_genes (hb : Booked h st) (hn : (mints h).length ≤ 2 ^ 255) {id : ℕ}
    {info : KittyInfo A} (hi : st.allKitties[id]? = some info) :
    (st.read info.owner id).genes = mintedGenes h id := by
  obtain ⟨w, t, hw, -, hk⟩ := hb.registered hn hi
  rw [State.read, hk, mintedGenes, hw]
  rfl

/-- Below `2 ^ 255`, an address has an entry only for a kitty minted to it. -/
theorem eq_none (hb : Booked h st) (hkey : key < 2 ^ 255)
    (hne : ∀ w, (mints h)[key]? = some w → w.owner ≠ a) : st.myKitties a key = none := by
  have hmap := hb.myKitties a key
  have hfilter : ((mints h)[key]?.filter fun w => w.owner = a) = none :=
    Option.filter_eq_none_iff.mpr fun w hw => by simpa using hne w hw
  rw [entry_of_lt hkey, hfilter, Option.map_none] at hmap
  exact Option.map_eq_none_iff.mp hmap

/-- Where nothing was minted in between, an entry below `2 ^ 255` is the same but for
`lastBreed`. -/
theorem exists_lastBreed {h' : History A} {st' : State A} (hb : Booked h st) (hb' : Booked h' st')
    (hmints : mints h' = mints h) (hkey : key < 2 ^ 255) {k : Kitty ℕ}
    (hk : st.myKitties a key = some k) :
    ∃ t, st'.myKitties a key = some { k with lastBreed := t } := by
  have hmap := hb'.myKitties a key
  rw [entry_of_lt hkey, hmints, ← entry_of_lt hkey, ← hb.myKitties, hk, Option.map_some] at hmap
  obtain ⟨k', hk', hbody⟩ := Option.map_eq_some_iff.mp hmap
  exact ⟨k'.lastBreed, by rw [hk', ← eq_of_body_eq hbody]⟩

/-- **A mint is booked.** -/
theorem mint (hb : Booked h st) (hn : (mints h).length < 2 ^ 255) (owner : A) (genes : ℕ)
    (gender : Bool) (r : Except Fault Unit) :
    Booked (.call (.mint owner genes gender) r :: h)
      (KittyBreeding.mint owner genes gender st) where
  newBorns := hb.newBorns
  owners := by
    show (st.allKitties ++ [_]).map KittyInfo.owner = (mints h ++ [_]).map Minted.owner
    rw [List.map_append, List.map_append, hb.owners]
    rfl
  newBornNums := hb.newBornNums
  matrons b hb' := (hb.matrons b hb').trans_le (List.length_append ▸ Nat.le_add_right _ _)
  myKitties a key := by
    have hput : (KittyBreeding.mint owner genes gender st).myKitties a key = _ :=
      State.put_myKitties owner st.allKitties.length _ _ a key
    rw [hput, entry_mint hn, hb.length_eq]
    by_cases hkey : owner = a ∧ (mints h).length = key
    · obtain ⟨rfl, rfl⟩ := hkey
      rw [if_pos ⟨rfl, rfl⟩, if_pos ⟨rfl, rfl⟩]
      rfl
    · rw [if_neg hkey, if_neg hkey]
      exact hb.myKitties a key

/-- **A breed that succeeds is booked.** -/
theorem breed (hb : Booked h st) (hn : (mints h).length ≤ 2 ^ 255) {m s : ℕ}
    {matron sire : KittyInfo A} (hbreed : Breedable st m s matron sire) (origin scope : A)
    (gender : Bool) :
    Booked (.call (.breed origin scope m s gender) (.ok ()) :: h)
      (st.bred origin m s matron sire) where
  newBorns := hb.newBorns
  owners := hb.owners
  newBornNums := congrArg (· + 1) hb.newBornNums
  matrons := by
    refine List.forall_mem_cons.mpr ⟨?_, hb.matrons⟩
    exact hb.length_eq ▸ (List.getElem?_eq_some_iff.mp hbreed.matron_eq).1
  myKitties a key := by
    obtain ⟨w, t, -, -, hk⟩ := hb.registered hn hbreed.matron_eq
    have hput : (st.bred origin m s matron sire).myKitties a key = _ :=
      State.put_myKitties origin (newBornKey st.newBorns.length) _ _ a key
    rw [hput, entry_breed, hb.newBorns, List.length_nil, newBornKey_zero,
      hb.read_genes hn hbreed.matron_eq, hb.read_genes hn hbreed.sire_eq]
    by_cases hkey : origin = a ∧ 2 ^ 255 = key
    · obtain ⟨rfl, rfl⟩ := hkey
      rw [if_pos ⟨rfl, rfl⟩, if_pos ⟨rfl, rfl⟩]
      rfl
    · rw [if_neg hkey, if_neg hkey, State.touch_body hk]
      exact hb.myKitties a key

end Booked

variable {G : History A → Config (State A) Empty → Event (Call A) Empty Unit Fault → Prop}
  {c : Config (State A) Empty}

/-- **The state is as the history says**, after `2 ^ 255` mints at most. -/
theorem booked_of_run (hr : machine.Run G ⟨deployed A, 0⟩ h c)
    (hops : ∀ k ∈ calls h, k.isOperation) (hn : (mints h).length ≤ 2 ^ 255) :
    Booked h c.state := by
  revert hops hn
  refine hr.call_invariant (I := fun h c => (∀ k ∈ calls h, k.isOperation) →
    (mints h).length ≤ 2 ^ 255 → Booked h c.state) ?_ ?_ ?_
  · intro _ _
    exact ⟨rfl, rfl, rfl, fun b hb => absurd hb List.not_mem_nil,
      fun a key => by simp [entry, mints, births, deployed]⟩
  · intro h c k eff _ ih _ hk hops hn
    rw [calls_cons_call, List.forall_mem_cons] at hops
    have hle := (mints_mono (List.suffix_cons (.call k (.ok eff.value)) h)).length_le
    have hb := ih hops.2 (hle.trans hn)
    obtain ⟨st', hst', rfl⟩ := call_eq_ok.mp hk
    cases k with
    | mint owner genes gender =>
      cases hst'
      rw [mints, List.length_append] at hn
      exact hb.mint hn owner genes gender _
    | breed origin scope m s gender =>
      obtain ⟨matron, sire, hbreed, rfl⟩ := (breed_eq_ok scope).mp hst'
      exact hb.breed (hle.trans hn) hbreed origin scope gender
    | newBlock number =>
      cases hst'
      exact ⟨hb.newBorns, hb.owners, hb.newBornNums, hb.matrons, hb.myKitties⟩
    | _ => cases hops.1
  · intro h c k f _ ih _ hk hops hn
    rw [calls_cons_call, List.forall_mem_cons] at hops
    cases k with
    | mint owner genes gender => cases hk
    | breed origin scope m s gender =>
      have hb := ih hops.2 hn
      exact ⟨hb.newBorns, hb.owners, hb.newBornNums, hb.matrons, hb.myKitties⟩
    | newBlock number => cases hk
    | _ => cases hops.1

/-! ### The registry -/

/-- **The list and the maps agree.** After any sequence of mints and breeds, with less than
`2 ^ 255` mints and less than `2 ^ 32 - 1` breeds that succeeded: a kitty of the list is in the map
of its owner with its id, the genes it was minted with and no parents; no other address has ever had
an entry under its id; a breed changes nothing of it but `lastBreed`; and a breed whose parents pass
the checks and have genes below the largest value succeeds. -/
theorem registry_consistent (hr : machine.Run Anything ⟨deployed A, 0⟩ h c)
    (hops : ∀ k ∈ calls h, k.isOperation) (hmints : (mints h).length < 2 ^ 255)
    (hbirths : (births h).length < 2 ^ 32 - 1) :
    (∀ id info, c.state.allKitties[id]? = some info →
      (∃ w t, (mints h)[id]? = some w ∧
        c.state.myKitties info.owner id = some ⟨id, w.genes, 2 ^ 256 - 1, 2 ^ 256 - 1, t⟩) ∧
      (∀ h₁ c₁, h₁ <:+ h → machine.Run Anything ⟨deployed A, 0⟩ h₁ c₁ →
        ∀ a ≠ info.owner, c₁.state.myKitties a id = none) ∧
      ∀ origin scope m s gender r c', machine.Step c (.call (.breed origin scope m s gender) r) c' →
        ∀ k, c.state.myKitties info.owner id = some k →
          ∃ t, c'.state.myKitties info.owner id = some { k with lastBreed := t }) ∧
    ∀ origin scope m s gender matron sire, Parents c.state m s matron sire →
      (c.state.read matron.owner m).genes < 2 ^ 256 - 1 →
      (c.state.read sire.owner s).genes < 2 ^ 256 - 1 →
      ∃ eff, machine.call (.breed origin scope m s gender) c.state = .ok eff := by
  have hb := booked_of_run hr hops hmints.le
  refine ⟨fun id info hi => ?_, ?_⟩
  · obtain ⟨w, t, hw, howner, hk⟩ := hb.registered hmints.le hi
    have hid : id < 2 ^ 255 := (List.getElem?_eq_some_iff.mp hw).1.trans hmints
    refine ⟨⟨w, t, hw, hk⟩, ?_, ?_⟩
    · intro h₁ c₁ hs hr₁ a ha
      have hmono := mints_mono hs
      have hb₁ := booked_of_run hr₁ (fun k hk => hops k ((calls_suffix hs).subset hk))
        (hmono.length_le.trans hmints.le)
      refine hb₁.eq_none hid fun w₁ hw₁ heq => ha ?_
      obtain ⟨hlt, hget⟩ := List.getElem?_eq_some_iff.mp hw₁
      have hw₁' : (mints h)[id]? = some w₁ := by
        rw [List.prefix_iff_getElem?.mp hmono id hlt, hget]
      cases hw.symm.trans hw₁'
      rw [← heq, howner]
    · intro origin scope m s gender r c' hst k hk
      have hb' := booked_of_run (hr.step hst trivial)
        (List.forall_mem_cons.mpr ⟨rfl, hops⟩) hmints.le
      exact hb.exists_lastBreed hb' rfl hid hk
  · intro origin scope m s gender matron sire hparents hm hs
    have hroom : c.state.newBornNums + 1 < 2 ^ 32 := by
      have := hb.newBornNums
      omega
    have hbreed : Breedable c.state m s matron sire := ⟨hparents, hm, hs, hroom⟩
    exact ⟨_, hbreed.call_eq origin scope gender⟩

/-- Addresses 0 and 1 get a matron and a sire, and address 2 breeds them in block 7: the matron is
still as it was minted, and can be bred again. -/
theorem registry_consistent_bred :
    ∃ (h : History (Fin 3)) (c : Config (State (Fin 3)) Empty),
      machine.Run Anything ⟨deployed (Fin 3), 0⟩ h c ∧
      calls h = [.breed 2 2 0 1 true, .newBlock 7, .mint 1 9 false, .mint 0 4 true] ∧
      (∃ t, c.state.myKitties 0 0 = some ⟨0, 4, 2 ^ 256 - 1, 2 ^ 256 - 1, t⟩) ∧
      c.state.myKitties 2 0 = none ∧
      ∃ eff, machine.call (.breed 2 2 0 1 false) c.state = .ok eff := by
  obtain ⟨⟨h, c⟩, hx, hcalls, hmints, hbirths, hmatron, hsire, hmgenes, hsgenes⟩ :
      ∃ r ∈ machine.exec Anything ⟨deployed (Fin 3), 0⟩
        [.call (.mint 0 4 true), .call (.mint 1 9 false), .call (.newBlock 7),
          .call (.breed 2 2 0 1 true)],
        calls r.1 = [.breed 2 2 0 1 true, .newBlock 7, .mint 1 9 false, .mint 0 4 true] ∧
          mints r.1 = [⟨4, true, 0⟩, ⟨9, false, 1⟩] ∧ (births r.1).length = 1 ∧
          r.2.state.allKitties[0]? = some ⟨true, 0, 0⟩ ∧
          r.2.state.allKitties[1]? = some ⟨false, 0, 1⟩ ∧
          (r.2.state.read 0 0).genes = 4 ∧ (r.2.state.read 1 1).genes = 9 := by decide
  have hr := Machine.exec_run hx
  obtain ⟨hkitties, hbreeds⟩ := registry_consistent hr (by rw [hcalls]; decide)
    (by rw [hmints]; decide) (by rw [hbirths]; decide)
  obtain ⟨⟨w, t, hw, hk⟩, hnone, -⟩ := hkitties 0 _ hmatron
  rw [hmints] at hw
  cases hw
  refine ⟨h, c, hr, hcalls, ⟨t, hk⟩, hnone h c List.suffix_rfl hr 2 (by decide), ?_⟩
  exact hbreeds 2 2 0 1 false _ _ ⟨hmatron, hsire, rfl, rfl⟩ (by rw [hmgenes]; decide)
    (by rw [hsgenes]; decide)

end KittyBreeding

end Sei

end RelayContracts
