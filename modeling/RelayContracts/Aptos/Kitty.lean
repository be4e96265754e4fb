import RelayContracts.NewtonSqrt
import RelayContracts.Synchronous

/-!
# The Aptos kitty module

The Move module `xtl_kitty_breeding`. An account can hold the list of all kitties and the number of
newborns, which makes it a `global`; and each account that has minted holds a table of its kitties.
A minted kitty is filed under its index in the list. A bred one is not entered in the list, and is
filed under its own genes.

Both are filed with `table::add`, which aborts where the key is taken. The keys of one account come
from two sources that know nothing of each other, so a breeding can abort because of an earlier
breeding with the same genes or of a mint, and a mint because of a breeding. `never_fails_iff` says
that this is all that can go wrong in a transaction that looks right, but for the counter of the
newborns.

Breeding asks for nothing but the two indices: that a matron is a matron is not checked, nor that
the parents are two.

## Main definitions

* `Call`, `machine` — the module
* `Storage.entry`, `Storage.put` — the tables, and filing a kitty
* `AddsOne` — one kitty was filed and nothing else has changed in the tables
-/

namespace RelayContracts

namespace Aptos

namespace KittyBreeding

open RelayMachine

/-- Why a transaction aborted. -/
inductive Abort where
  /-- `move_to` where the resource exists. -/
  | resourceAlreadyExists
  /-- `borrow_global_mut` where it does not. -/
  | missingData
  /-- `vector::borrow_mut` past the end. -/
  | indexOutOfBounds
  /-- `table::add` under a key that is taken. -/
  | keyAlreadyExists
  /-- `table::borrow_mut` under a key that is not there. -/
  | keyNotFound
  /-- A `u64` overflowed or was divided by zero. -/
  | arithmeticError
  deriving DecidableEq, Repr

/-- `struct Kitty`. -/
structure Kitty where
  /-- The key it is filed under. -/
  id : ℕ
  /-- The genes. -/
  genes : ℕ
  /-- The index of the matron. -/
  mId : ℕ
  /-- The index of the sire. -/
  sId : ℕ
  deriving DecidableEq, Repr

/-- `struct KittyInfo`. -/
structure KittyInfo (A : Type) where
  /-- True for a matron. -/
  gender : Bool
  /-- The owner. -/
  owner : A
  deriving DecidableEq, Repr

/-- The resources of each account that has them. -/
structure Storage (A : Type) where
  /-- `MyKitties`. -/
  myKitties : A → Option (ℕ → Option Kitty)
  /-- `AllKitties`. -/
  allKitties : A → Option (List (KittyInfo A))
  /-- `Newborns`. -/
  newborns : A → Option ℕ

/-- No account has a resource. -/
def empty (A : Type) : Storage A := ⟨fun _ => none, fun _ => none, fun _ => none⟩

/-- The functions of the module, with the account that signs. -/
inductive Call (A : Type) where
  /-- `initialize(global)`. -/
  | initializeGlobal (global : A)
  /-- `mint(owner, global, genes, gender)`. -/
  | mint (owner global : A) (genes : ℕ) (gender : Bool)
  /-- `breed(sender, global, m, s, gender)`. -/
  | breed (sender global : A) (m s : ℕ) (gender : Bool)
  deriving DecidableEq, Repr

/-- Arithmetic on `u64`, where every fault is the same. -/
def arithmetic {α : Type} (x : Except Fault α) : Except Abort α := faultAs .arithmeticError x

variable {A : Type}

namespace Storage

/-- What an account has under a key. -/
def entry (a : A) (key : ℕ) (st : Storage A) : Option Kitty := (st.myKitties a).bind (· key)

end Storage

/-! ### The functions -/

/-- `sqrt(x)`. -/
def sqrt (x : ℕ) : Except Abort ℕ := arithmetic (sqrtU .trap 64 x)

/-- The expression `sqrt(m_genes) * sqrt(s_genes)`. -/
def mixture (mGenes sGenes : ℕ) : Except Abort ℕ := do
  let a ← sqrt mGenes
  let b ← sqrt sGenes
  arithmetic (mulU .trap 64 a b)

/-- `genes_mix(m_genes, s_genes)`, which computes its result seven times. -/
def genesMix (mGenes sGenes : ℕ) : Except Abort ℕ := do
  let _ ← mixture mGenes sGenes
  let _ ← mixture mGenes sGenes
  let _ ← mixture mGenes sGenes
  let _ ← mixture mGenes sGenes
  let _ ← mixture mGenes sGenes
  let _ ← mixture mGenes sGenes
  mixture mGenes sGenes

/-- `borrow_global_mut<AllKitties>(global).value`. -/
def borrowAllKitties (global : A) (st : Storage A) : Except Abort (List (KittyInfo A)) :=
  match st.allKitties global with
  | some kitties => .ok kitties
  | none => .error .missingData

/-- `borrow_global_mut<MyKitties>(a).value`. -/
def borrowMyKitties (a : A) (st : Storage A) : Except Abort (ℕ → Option Kitty) :=
  match st.myKitties a with
  | some table => .ok table
  | none => .error .missingData

/-- `vector::borrow_mut(&mut kitties, i)`. -/
def borrowInfo (kitties : List (KittyInfo A)) (i : ℕ) : Except Abort (KittyInfo A) :=
  match kitties[i]? with
  | some info => .ok info
  | none => .error .indexOutOfBounds

/-- `table::borrow_mut(&mut table, key)`. -/
def borrowKitty (table : ℕ → Option Kitty) (key : ℕ) : Except Abort Kitty :=
  match table key with
  | some kitty => .ok kitty
  | none => .error .keyNotFound

variable [DecidableEq A]

/-- `initialize(global)`. -/
def initializeGlobal (global : A) (st : Storage A) : Except Abort (Storage A) :=
  match st.allKitties global with
  | some _ => .error .resourceAlreadyExists
  | none =>
    match st.newborns global with
    | some _ => .error .resourceAlreadyExists
    | none => .ok { st with
        allKitties := Function.update st.allKitties global (some [])
        newborns := Function.update st.newborns global (some 0) }

/-- `create(global, gender, owner)`. -/
def create (global : A) (gender : Bool) (owner : A) (st : Storage A) :
    Except Abort (ℕ × Storage A) := do
  let kitties ← borrowAllKitties global st
  let id := kitties.length
  .ok (id, { st with
    allKitties := Function.update st.allKitties global (some (kitties ++ [⟨gender, owner⟩])) })

/-- `add_new_kitty(owner, genes, id, m_id, s_id)`. -/
def addNewKitty (owner : A) (genes id mId sId : ℕ) (st : Storage A) :
    Except Abort (Storage A) := do
  let table ← borrowMyKitties owner st
  match table id with
  | some _ => .error .keyAlreadyExists
  | none => .ok { st with
      myKitties := Function.update st.myKitties owner
        (some (Function.update table id (some ⟨id, genes, mId, sId⟩))) }

/-- The first step of `mint`: an account that has no table gets one. -/
def makeTable (addr : A) (st : Storage A) : Storage A :=
  match st.myKitties addr with
  | some _ => st
  | none => { st with myKitties := Function.update st.myKitties addr (some fun _ => none) }

/-- `mint(owner, global, genes, gender)`. -/
def mint (owner global : A) (genes : ℕ) (gender : Bool) (st : Storage A) :
    Except Abort (Storage A) := do
  let (id, st) ← create global gender owner (makeTable owner st)
  addNewKitty owner genes id (1 <<< 32 - 1) (1 <<< 32 - 1) st

/-- `breed(sender, global, m, s, gender)`. -/
def breed (sender global : A) (m s : ℕ) (_gender : Bool) (st : Storage A) :
    Except Abort (Storage A) := do
  let newOwner := sender
  let allKitties ← borrowAllKitties global st
  let matron ← borrowInfo allKitties m
  let sire ← borrowInfo allKitties s
  let mTable ← borrowMyKitties matron.owner st
  let mKitty ← borrowKitty mTable m
  let sTable ← borrowMyKitties sire.owner st
  let sKitty ← borrowKitty sTable s
  let newGenes ← genesMix mKitty.genes sKitty.genes
  let st ← addNewKitty newOwner newGenes newGenes m s st
  match st.newborns global with
  | none => .error .missingData
  | some newborns =>
    let newborns ← arithmetic (addU .trap 64 newborns 1)
    .ok { st with newborns := Function.update st.newborns global (some newborns) }

/-- Execute a transaction. -/
def execute : Call A → Storage A → Except Abort (Storage A)
  | .initializeGlobal global => initializeGlobal global
  | .mint owner global genes gender => mint owner global genes gender
  | .breed sender global m s gender => breed sender global m s gender

/-- The module as a machine without relays. -/
def machine : Machine (Storage A) (Call A) Empty Unit Abort where
  call q st := do
    let st ← execute q st
    .ok ⟨st, (), []⟩
  relay m := m.elim

/-- The transactions of a run, latest first. -/
abbrev History (A : Type) := List (Event (Call A) Empty Unit Abort)

/-! ### What a transaction that succeeds does -/

namespace Storage

/-- File a kitty for an account, which gets a table if it has none. -/
def put (a : A) (kitty : Kitty) (st : Storage A) : Storage A :=
  { st with
    myKitties := Function.update st.myKitties a
      (some (Function.update ((st.myKitties a).getD fun _ => none) kitty.id (some kitty))) }

/-- Enter a kitty in a list. -/
def enter (global : A) (info : KittyInfo A) (st : Storage A) : Storage A :=
  { st with
    allKitties := Function.update st.allKitties global
      (some ((st.allKitties global).getD [] ++ [info])) }

/-- Count a newborn. -/
def count (global : A) (st : Storage A) : Storage A :=
  { st with
    newborns := Function.update st.newborns global
      (some ((st.newborns global).getD 0 + 1)) }

theorem entry_put (a : A) (kitty : Kitty) (st : Storage A) (b : A) (key : ℕ) :
    (st.put a kitty).entry b key =
      if a = b ∧ kitty.id = key then some kitty else st.entry b key := by
  rw [entry, entry, put]
  dsimp only
  by_cases hb : b = a
  · subst hb
    rw [Function.update_self, Option.bind_some, Function.update_apply]
    by_cases hkey : key = kitty.id
    · rw [if_pos hkey, if_pos ⟨rfl, hkey.symm⟩]
    · rw [if_neg hkey, if_neg fun heq => hkey heq.2.symm]
      cases st.myKitties b with
      | none => rfl
      | some table => rfl
  · rw [Function.update_of_ne hb, if_neg fun heq => hb heq.1.symm]

end Storage

variable {st st' : Storage A} {owner sender global : A} {genes m s : ℕ} {gender : Bool}

theorem call_eq_ok {q : Call A} {eff : Effect (Storage A) Empty Unit} :
    machine.call q st = .ok eff ↔ ∃ st', execute q st = .ok st' ∧ eff = ⟨st', (), []⟩ :=
  bind_ok_eq_ok

theorem call_eq_error {q : Call A} {f : Abort} :
    machine.call q st = .error f ↔ execute q st = .error f :=
  bind_ok_eq_error

theorem initializeGlobal_eq_ok :
    initializeGlobal global st = .ok st' ↔
      st.allKitties global = none ∧ st.newborns global = none ∧
      st' = { st with
        allKitties := Function.update st.allKitties global (some [])
        newborns := Function.update st.newborns global (some 0) } := by
  rw [initializeGlobal]
  cases st.allKitties global <;> cases st.newborns global <;> simp [eq_comm]

omit [DecidableEq A] in
theorem borrowAllKitties_eq_ok {kitties : List (KittyInfo A)} :
    borrowAllKitties global st = .ok kitties ↔ st.allKitties global = some kitties := by
  rw [borrowAllKitties]
  cases st.allKitties global <;> simp

omit [DecidableEq A] in
theorem borrowMyKitties_eq_ok {a : A} {table : ℕ → Option Kitty} :
    borrowMyKitties a st = .ok table ↔ st.myKitties a = some table := by
  rw [borrowMyKitties]
  cases st.myKitties a <;> simp

omit [DecidableEq A] in
theorem borrowInfo_eq_ok {kitties : List (KittyInfo A)} {i : ℕ} {info : KittyInfo A} :
    borrowInfo kitties i = .ok info ↔ kitties[i]? = some info := by
  rw [borrowInfo]
  cases kitties[i]? <;> simp

theorem borrowKitty_eq_ok {table : ℕ → Option Kitty} {key : ℕ} {kitty : Kitty} :
    borrowKitty table key = .ok kitty ↔ table key = some kitty := by
  rw [borrowKitty]
  cases table key <;> simp

theorem mixture_eq (mGenes sGenes : ℕ) :
    mixture mGenes sGenes = arithmetic (mulSqrtU .trap 64 mGenes sGenes) := by
  simp only [mixture, sqrt, arithmetic, mulSqrtU, faultAs_bind]

theorem genesMix_eq (mGenes sGenes : ℕ) :
    genesMix mGenes sGenes = arithmetic (mulSqrtU .trap 64 mGenes sGenes) := by
  rw [genesMix, mixture_eq]
  cases arithmetic (mulSqrtU .trap 64 mGenes sGenes) with
  | error f => rfl
  | ok g => rfl

/-- **A newborn gets the product of the square roots** of its parents' genes, if both are below the
largest value of the type. -/
theorem genesMix_eq_ok {mGenes sGenes g : ℕ} :
    genesMix mGenes sGenes = .ok g ↔
      mGenes < 2 ^ 64 - 1 ∧ sGenes < 2 ^ 64 - 1 ∧ g = Nat.sqrt mGenes * Nat.sqrt sGenes := by
  rw [genesMix_eq, arithmetic, faultAs_eq_ok, mulSqrtU_trap_eq_ok]
  constructor
  · rintro ⟨hm, hs, rfl⟩
    exact ⟨by omega, by omega, rfl⟩
  · rintro ⟨hm, hs, rfl⟩
    exact ⟨by omega, by omega, rfl⟩

/-- When a kitty can be filed, and how. -/
theorem addNewKitty_eq_ok {id mId sId : ℕ} :
    addNewKitty owner genes id mId sId st = .ok st' ↔
      (st.myKitties owner).isSome ∧ st.entry owner id = none ∧
        st' = st.put owner ⟨id, genes, mId, sId⟩ := by
  rw [addNewKitty, borrowMyKitties, Storage.entry, Storage.put]
  cases st.myKitties owner with
  | none => simp
  | some table =>
    rw [ok_bind, Option.bind_some, Option.getD_some]
    cases table id with
    | some kitty => simp
    | none => simp [eq_comm]

theorem create_eq_ok {id : ℕ} :
    create global gender owner st = .ok (id, st') ↔
      ∃ kitties, st.allKitties global = some kitties ∧ id = kitties.length ∧
        st' = st.enter global ⟨gender, owner⟩ := by
  rw [create, borrowAllKitties, Storage.enter]
  cases st.allKitties global with
  | none => simp
  | some kitties => simp [eq_comm]

theorem makeTable_allKitties : (makeTable owner st).allKitties = st.allKitties := by
  rw [makeTable]
  cases st.myKitties owner <;> rfl

theorem makeTable_enter (info : KittyInfo A) :
    (makeTable owner st).enter global info = makeTable owner (st.enter global info) := by
  rw [makeTable, makeTable, Storage.enter, Storage.enter]
  cases st.myKitties owner <;> rfl

theorem makeTable_isSome : ((makeTable owner st).myKitties owner).isSome := by
  rw [makeTable]
  cases hold : st.myKitties owner with
  | none => simp
  | some table => simp [hold]

theorem makeTable_entry (key : ℕ) : (makeTable owner st).entry owner key = st.entry owner key := by
  rw [makeTable, Storage.entry, Storage.entry]
  cases hold : st.myKitties owner with
  | none => simp
  | some table => simp [hold]

theorem makeTable_put (kitty : Kitty) :
    (makeTable owner st).put owner kitty = st.put owner kitty := by
  rw [makeTable]
  cases hold : st.myKitties owner with
  | none => simp [Storage.put, hold]
  | some table => rfl

/-- **When `mint` succeeds**: there is a list, and the account has nothing under the next index. -/
theorem mint_eq_ok :
    mint owner global genes gender st = .ok st' ↔
      ∃ kitties, st.allKitties global = some kitties ∧ st.entry owner kitties.length = none ∧
        st' = (st.enter global ⟨gender, owner⟩).put owner
          ⟨kitties.length, genes, 1 <<< 32 - 1, 1 <<< 32 - 1⟩ := by
  constructor
  · intro h
    obtain ⟨⟨id, st₁⟩, hcreate, h⟩ := exists_of_bind_eq_ok h
    obtain ⟨kitties, hkitties, rfl, rfl⟩ := create_eq_ok.mp hcreate
    rw [makeTable_allKitties] at hkitties
    rw [makeTable_enter] at h
    obtain ⟨-, hfree, rfl⟩ := addNewKitty_eq_ok.mp h
    rw [makeTable_entry] at hfree
    exact ⟨kitties, hkitties, hfree, makeTable_put _⟩
  · rintro ⟨kitties, hkitties, hfree, rfl⟩
    have hcreate : create global gender owner (makeTable owner st) =
        .ok (kitties.length, makeTable owner (st.enter global ⟨gender, owner⟩)) :=
      create_eq_ok.mpr ⟨kitties, by rw [makeTable_allKitties]; exact hkitties, rfl,
        (makeTable_enter _).symm⟩
    rw [mint, hcreate, ok_bind]
    refine addNewKitty_eq_ok.mpr ⟨makeTable_isSome, ?_, (makeTable_put _).symm⟩
    rw [makeTable_entry]
    exact hfree

/-- What `breed` asks for: the parents are listed in `kitties` and filed by their owners, they have
a mixture, and it can be filed and counted. -/
structure Breedable (st : Storage A) (sender global : A) (m s : ℕ) (kitties : List (KittyInfo A))
    (matron sire : KittyInfo A) (mKitty sKitty : Kitty) (newborns : ℕ) : Prop where
  /-- There is a list. -/
  kitties_eq : st.allKitties global = some kitties
  /-- The matron is listed. -/
  matron_eq : kitties[m]? = some matron
  /-- So is the sire. -/
  sire_eq : kitties[s]? = some sire
  /-- The owner has the matron. -/
  matron_entry : st.entry matron.owner m = some mKitty
  /-- The owner has the sire. -/
  sire_entry : st.entry sire.owner s = some sKitty
  /-- The matron's genes are not the largest value of the type. -/
  matron_genes : mKitty.genes < 2 ^ 64 - 1
  /-- Nor are the sire's. -/
  sire_genes : sKitty.genes < 2 ^ 64 - 1
  /-- The sender has a table. -/
  table : (st.myKitties sender).isSome
  /-- The key is free. -/
  free : st.entry sender (Nat.sqrt mKitty.genes * Nat.sqrt sKitty.genes) = none
  /-- There is a counter. -/
  newborns_eq : st.newborns global = some newborns
  /-- It has room. -/
  room : newborns + 1 < 2 ^ 64

omit [DecidableEq A] in
theorem exists_table {a : A} {key : ℕ} {kitty : Kitty} (h : st.entry a key = some kitty) :
    ∃ table, st.myKitties a = some table ∧ table key = some kitty :=
  Option.bind_eq_some_iff.mp h

/-- **When `breed` succeeds**, and what it does then. -/
theorem breed_eq_ok (gender : Bool) :
    breed sender global m s gender st = .ok st' ↔
      ∃ kitties matron sire mKitty sKitty newborns,
        Breedable st sender global m s kitties matron sire mKitty sKitty newborns ∧
        st' = (st.put sender ⟨Nat.sqrt mKitty.genes * Nat.sqrt sKitty.genes,
          Nat.sqrt mKitty.genes * Nat.sqrt sKitty.genes, m, s⟩).count global := by
  constructor
  · intro h
    obtain ⟨kitties, hkitties, h⟩ := exists_of_bind_eq_ok h
    obtain ⟨matron, hmatron, h⟩ := exists_of_bind_eq_ok h
    obtain ⟨sire, hsire, h⟩ := exists_of_bind_eq_ok h
    obtain ⟨mTable, hmTable, h⟩ := exists_of_bind_eq_ok h
    obtain ⟨mKitty, hmKitty, h⟩ := exists_of_bind_eq_ok h
    obtain ⟨sTable, hsTable, h⟩ := exists_of_bind_eq_ok h
    obtain ⟨sKitty, hsKitty, h⟩ := exists_of_bind_eq_ok h
    obtain ⟨newGenes, hmix, h⟩ := exists_of_bind_eq_ok h
    obtain ⟨hm, hs, rfl⟩ := genesMix_eq_ok.mp hmix
    obtain ⟨st₁, hadd, h⟩ := exists_of_bind_eq_ok h
    obtain ⟨htable, hfree, rfl⟩ := addNewKitty_eq_ok.mp hadd
    have hm' : st.entry matron.owner m = some mKitty := Option.bind_eq_some_iff.mpr
      ⟨mTable, borrowMyKitties_eq_ok.mp hmTable, borrowKitty_eq_ok.mp hmKitty⟩
    have hs' : st.entry sire.owner s = some sKitty := Option.bind_eq_some_iff.mpr
      ⟨sTable, borrowMyKitties_eq_ok.mp hsTable, borrowKitty_eq_ok.mp hsKitty⟩
    split at h
    · cases h
    · rename_i newborns hnewborns
      obtain ⟨n, hn, h⟩ := exists_of_bind_eq_ok h
      obtain ⟨hroom, rfl⟩ := addU_trap_eq_ok.mp (faultAs_eq_ok.mp hn)
      cases h
      refine ⟨kitties, matron, sire, mKitty, sKitty, newborns,
        ⟨borrowAllKitties_eq_ok.mp hkitties, borrowInfo_eq_ok.mp hmatron, borrowInfo_eq_ok.mp hsire,
          hm', hs', hm, hs, htable, hfree, hnewborns, hroom⟩, ?_⟩
      rw [Storage.count, hnewborns, Option.getD_some]
  · rintro ⟨kitties, matron, sire, mKitty, sKitty, newborns, hb, rfl⟩
    obtain ⟨mTable, hmTable, hmKitty⟩ := exists_table hb.matron_entry
    obtain ⟨sTable, hsTable, hsKitty⟩ := exists_table hb.sire_entry
    rw [breed, borrowAllKitties_eq_ok.mpr hb.kitties_eq, ok_bind,
      borrowInfo_eq_ok.mpr hb.matron_eq, ok_bind, borrowInfo_eq_ok.mpr hb.sire_eq, ok_bind,
      borrowMyKitties_eq_ok.mpr hmTable, ok_bind, borrowKitty_eq_ok.mpr hmKitty, ok_bind,
      borrowMyKitties_eq_ok.mpr hsTable, ok_bind, borrowKitty_eq_ok.mpr hsKitty, ok_bind,
      genesMix_eq_ok.mpr ⟨hb.matron_genes, hb.sire_genes, rfl⟩, ok_bind,
      addNewKitty_eq_ok.mpr ⟨hb.table, hb.free, rfl⟩, ok_bind]
    have hnewborns : ∀ kitty, (st.put sender kitty).newborns global = some newborns :=
      fun _ => hb.newborns_eq
    rw [Storage.count, hnewborns, Option.getD_some]
    dsimp only
    rw [addU_of_lt hb.room]
    rfl

/-! ### Runs -/

/-- An account has minted before. -/
def HasMinted (owner : A) (h : History A) : Prop :=
  ∃ global genes gender, Event.call (.mint owner global genes gender) (.ok ()) ∈ h

/-- What transactions with genes below the largest value of the type keep. -/
structure Filed (h : History A) (st : Storage A) : Prop where
  /-- A listed kitty is filed by its owner. -/
  listed : ∀ {global kitties i info}, st.allKitties global = some kitties →
    kitties[i]? = some info → (st.entry info.owner i).isSome
  /-- No genes are the largest value of the type. -/
  genes : ∀ {a key kitty}, st.entry a key = some kitty → kitty.genes < 2 ^ 64 - 1
  /-- Where there is a list there is a counter. -/
  counter : ∀ {global kitties}, st.allKitties global = some kitties →
    (st.newborns global).isSome
  /-- Who has minted has a table. -/
  table : ∀ {owner}, HasMinted owner h → (st.myKitties owner).isSome

section Filing

variable {h : History A} {kitty : Kitty} {a : A}

theorem entry_isSome_put (b : A) (key : ℕ) (hsome : (st.entry b key).isSome) :
    ((st.put a kitty).entry b key).isSome := by
  rw [Storage.entry_put]
  split
  · rfl
  · exact hsome

theorem table_isSome_put (b : A) (hsome : (st.myKitties b).isSome) :
    ((st.put a kitty).myKitties b).isSome := by
  rw [Storage.put]
  dsimp only
  rw [Function.update_apply]
  split
  · rfl
  · exact hsome

theorem Filed.genes_put (hf : Filed h st) (hkitty : kitty.genes < 2 ^ 64 - 1) {b : A} {key : ℕ}
    {kitty' : Kitty} (hsome : (st.put a kitty).entry b key = some kitty') :
    kitty'.genes < 2 ^ 64 - 1 := by
  rw [Storage.entry_put] at hsome
  split at hsome
  · cases hsome
    exact hkitty
  · exact hf.genes hsome

theorem Filed.initializeGlobal (hf : Filed h st) (global : A) :
    Filed (.call (.initializeGlobal global) (.ok ()) :: h)
      { st with
        allKitties := Function.update st.allKitties global (some [])
        newborns := Function.update st.newborns global (some 0) } where
  listed := by
    intro g kitties i info hkitties hinfo
    dsimp only at hkitties
    rw [Function.update_apply] at hkitties
    split at hkitties
    · cases hkitties
      cases hinfo
    · exact hf.listed hkitties hinfo
  genes := hf.genes
  counter := by
    intro g kitties hkitties
    dsimp only at hkitties ⊢
    by_cases hg : g = global
    · rw [hg, Function.update_self]
      rfl
    · rw [Function.update_of_ne hg] at hkitties ⊢
      exact hf.counter hkitties
  table := by
    rintro a ⟨g, genes, gender, hmem⟩
    exact hf.table ⟨g, genes, gender, by simpa using hmem⟩

/-- A list after an entry. -/
theorem of_enter_eq_some {kitties kitties' : List (KittyInfo A)} {info : KittyInfo A} {g : A}
    (hkitties : st.allKitties global = some kitties)
    (hg : (st.enter global info).allKitties g = some kitties') :
    (g = global ∧ kitties' = kitties ++ [info]) ∨ st.allKitties g = some kitties' := by
  rw [Storage.enter, hkitties] at hg
  dsimp only at hg
  by_cases heq : g = global
  · rw [heq, Function.update_self] at hg
    cases hg
    exact .inl ⟨heq, rfl⟩
  · rw [Function.update_of_ne heq] at hg
    exact .inr hg

theorem Filed.mint (hf : Filed h st) {kitties : List (KittyInfo A)}
    (hkitties : st.allKitties global = some kitties) (hgenes : genes < 2 ^ 64 - 1) (mId sId : ℕ) :
    Filed (.call (.mint owner global genes gender) (.ok ()) :: h)
      ((st.enter global ⟨gender, owner⟩).put owner ⟨kitties.length, genes, mId, sId⟩) where
  listed := by
    intro g kitties' i info hg hinfo
    rcases of_enter_eq_some hkitties hg with ⟨-, rfl⟩ | hg
    · rcases Nat.lt_trichotomy i kitties.length with hi | rfl | hi
      · rw [List.getElem?_append_left hi] at hinfo
        exact entry_isSome_put _ _ (hf.listed hkitties hinfo)
      · rw [List.getElem?_concat_length] at hinfo
        cases hinfo
        rw [Storage.entry_put, if_pos ⟨rfl, rfl⟩]
        rfl
      · rw [List.getElem?_eq_none (by simpa using Nat.succ_le_of_lt hi)] at hinfo
        cases hinfo
    · exact entry_isSome_put _ _ (hf.listed hg hinfo)
  genes hkitty := hf.genes_put hgenes hkitty
  counter := by
    intro g kitties' hg
    change (st.newborns g).isSome
    rcases of_enter_eq_some hkitties hg with ⟨rfl, -⟩ | hg
    · exact hf.counter hkitties
    · exact hf.counter hg
  table := by
    rintro a ⟨g, genes', gender', hmem⟩
    rcases List.mem_cons.mp hmem with heq | hmem
    · cases heq
      simp [Storage.put]
    · exact table_isSome_put a (hf.table ⟨g, genes', gender', hmem⟩)

theorem Filed.breed (hf : Filed h st) (hgenes : kitty.genes < 2 ^ 64 - 1) :
    Filed (.call (.breed sender global m s gender) (.ok ()) :: h)
      ((st.put sender kitty).count global) where
  listed hkitties hinfo := entry_isSome_put _ _ (hf.listed hkitties hinfo)
  genes hkitty := hf.genes_put hgenes hkitty
  counter := by
    intro g kitties hkitties
    rw [Storage.count]
    dsimp only
    rw [Function.update_apply]
    split
    · rfl
    · exact hf.counter hkitties
  table := by
    rintro a ⟨g, genes', gender', hmem⟩
    exact table_isSome_put a (hf.table ⟨g, genes', gender', by simpa using hmem⟩)

end Filing

section Runs

variable {h : History A} {c : Config (Storage A) Empty}

/-- The run lemma. -/
theorem filed_of_run (hr : machine.Run Anything ⟨empty A, 0⟩ h c)
    (hgenes : ∀ owner global genes gender, .mint owner global genes gender ∈ calls h →
      genes < 2 ^ 64 - 1) : Filed h c.state := by
  revert hgenes
  refine hr.call_invariant (I := fun h c => (∀ owner global genes gender,
    .mint owner global genes gender ∈ calls h → genes < 2 ^ 64 - 1) → Filed h c.state) ?_ ?_ ?_
  · intro _
    refine ⟨fun hkitties => ?_, fun hkitty => ?_, fun hkitties => ?_, ?_⟩
    · cases hkitties
    · cases hkitty
    · cases hkitties
    · rintro owner ⟨g, genes, gender, hmem⟩
      cases hmem
  · intro h c q eff _ ih _ hq hgenes
    have hf := ih fun owner global genes gender hmem =>
      hgenes owner global genes gender (List.mem_cons_of_mem q hmem)
    obtain ⟨st', hst', rfl⟩ := call_eq_ok.mp hq
    cases q with
    | initializeGlobal global =>
      obtain ⟨-, -, rfl⟩ := initializeGlobal_eq_ok.mp hst'
      exact hf.initializeGlobal global
    | mint owner global genes gender =>
      obtain ⟨kitties, hkitties, -, rfl⟩ := mint_eq_ok.mp hst'
      exact hf.mint hkitties (hgenes owner global genes gender List.mem_cons_self) _ _
    | breed sender global m s gender =>
      obtain ⟨_, _, _, mKitty, sKitty, _, hb, rfl⟩ := (breed_eq_ok gender).mp hst'
      exact hf.breed (sqrt_mul_sqrt_lt hb.matron_genes hb.sire_genes)
  · intro h c q f _ ih _ _ hgenes
    have hf := ih fun owner global genes gender hmem =>
      hgenes owner global genes gender (List.mem_cons_of_mem q hmem)
    refine ⟨hf.listed, hf.genes, hf.counter, ?_⟩
    rintro owner ⟨g, genes, gender, hmem⟩
    exact hf.table ⟨g, genes, gender, by simpa using hmem⟩

/-- One kitty was filed for `a`, and nothing else has changed in the tables. -/
def AddsOne (a : A) (before after : Storage A) : Prop :=
  ∃ key kitty, before.entry a key = none ∧ after.entry a key = some kitty ∧
    ∀ b i, ¬ (a = b ∧ key = i) → after.entry b i = before.entry b i

theorem addsOne_put (st : Storage A) {a : A} {kitty : Kitty} (hfree : st.entry a kitty.id = none) :
    AddsOne a st (st.put a kitty) := by
  refine ⟨kitty.id, kitty, hfree, ?_, fun b i hne => ?_⟩
  · rw [Storage.entry_put, if_pos ⟨rfl, rfl⟩]
  · rw [Storage.entry_put, if_neg hne]

/-- The genes of a listed kitty. -/
def Storage.genesOf (global : A) (i : ℕ) (st : Storage A) : ℕ :=
  (((st.allKitties global).bind (·[i]?)).bind fun info => st.entry info.owner i).elim 0 Kitty.genes

omit [DecidableEq A] in
/-- A listed kitty is where its genes are read. -/
theorem Filed.exists_entry {st : Storage A} (hf : Filed h st) {kitties : List (KittyInfo A)}
    (hkitties : st.allKitties global = some kitties) {i : ℕ} (hi : i < kitties.length) :
    ∃ info kitty, kitties[i]? = some info ∧ st.entry info.owner i = some kitty ∧
      st.genesOf global i = kitty.genes := by
  have hinfo := List.getElem?_eq_getElem hi
  obtain ⟨kitty, hkitty⟩ := Option.isSome_iff_exists.mp (hf.listed hkitties hinfo)
  refine ⟨_, kitty, hinfo, hkitty, ?_⟩
  rw [Storage.genesOf, hkitties, Option.bind_some, hinfo, Option.bind_some, hkitty,
    Option.elim_some]

/-- **When transactions that look right abort.** In a state that any transactions lead to whose
genes are below the largest value of the type, `mint` by any account succeeds if and only if the
account has nothing under the next index of the list. `breed` of two listed kitties by an account
that has minted succeeds if and only if the account has nothing under the genes of the newborn, and
the counter has room. If they succeed they file one kitty and change no other entry. -/
theorem never_fails_iff (hr : machine.Run Anything ⟨empty A, 0⟩ h c)
    (hgenes : ∀ owner global genes gender, .mint owner global genes gender ∈ calls h →
      genes < 2 ^ 64 - 1) {kitties : List (KittyInfo A)}
    (hkitties : c.state.allKitties global = some kitties) :
    (∀ owner genes gender,
      (∃ st', mint owner global genes gender c.state = .ok st' ∧ AddsOne owner c.state st') ↔
        c.state.entry owner kitties.length = none) ∧
    ∀ sender m s gender, HasMinted sender h → m < kitties.length → s < kitties.length →
      ((∃ st', breed sender global m s gender c.state = .ok st' ∧ AddsOne sender c.state st') ↔
        c.state.entry sender (Nat.sqrt (c.state.genesOf global m) *
          Nat.sqrt (c.state.genesOf global s)) = none ∧
        ∀ n, c.state.newborns global = some n → n + 1 < 2 ^ 64) := by
  have hf := filed_of_run hr hgenes
  refine ⟨fun owner genes gender => ⟨?_, fun hfree => ?_⟩,
    fun sender m s gender hminted hm hs => ?_⟩
  · rintro ⟨st', hst', -⟩
    obtain ⟨kitties', hkitties', hfree, -⟩ := mint_eq_ok.mp hst'
    cases hkitties.symm.trans hkitties'
    exact hfree
  · refine ⟨_, mint_eq_ok.mpr ⟨kitties, hkitties, hfree, rfl⟩, ?_⟩
    -- The list is not one of the tables.
    exact addsOne_put (c.state.enter global ⟨gender, owner⟩) hfree
  · obtain ⟨matron, mKitty, hmatron, hmKitty, hmGenes⟩ := hf.exists_entry hkitties hm
    obtain ⟨sire, sKitty, hsire, hsKitty, hsGenes⟩ := hf.exists_entry hkitties hs
    obtain ⟨n, hn⟩ := Option.isSome_iff_exists.mp (hf.counter hkitties)
    rw [hmGenes, hsGenes]
    constructor
    · rintro ⟨st', hst', -⟩
      obtain ⟨kitties', matron', sire', mKitty', sKitty', n', hb, -⟩ := (breed_eq_ok gender).mp hst'
      cases hkitties.symm.trans hb.kitties_eq
      cases hmatron.symm.trans hb.matron_eq
      cases hsire.symm.trans hb.sire_eq
      cases hmKitty.symm.trans hb.matron_entry
      cases hsKitty.symm.trans hb.sire_entry
      refine ⟨hb.free, fun k hk => ?_⟩
      cases hk.symm.trans hb.newborns_eq
      exact hb.room
    · rintro ⟨hfree, hroom⟩
      refine ⟨_, (breed_eq_ok gender).mpr ⟨kitties, matron, sire, mKitty, sKitty, n,
        ⟨hkitties, hmatron, hsire, hmKitty, hsKitty, hf.genes hmKitty, hf.genes hsKitty,
          hf.table hminted, hfree, hn, hroom n hn⟩, rfl⟩, ?_⟩
      exact addsOne_put c.state hfree

end Runs

/-- Two kitties are minted; the account can mint and breed. -/
theorem never_fails_fresh :
    ∃ (h : History Bool) (c : Config (Storage Bool) Empty),
      machine.Run Anything ⟨empty Bool, 0⟩ h c ∧
      calls h = [.mint true false 9 false, .mint true false 4 true, .initializeGlobal false] ∧
      (∃ st', mint true false 7 true c.state = .ok st' ∧ AddsOne true c.state st') ∧
      ∃ st', breed true false 0 1 true c.state = .ok st' ∧ AddsOne true c.state st' := by
  obtain ⟨⟨h, c⟩, hx, hcalls, hall, hminted, hfree, hm, hs, hbred, hcount⟩ :
      ∃ r ∈ machine.exec Anything ⟨empty Bool, 0⟩ [.call (.initializeGlobal false),
          .call (.mint true false 4 true), .call (.mint true false 9 false)],
        calls r.1 = [.mint true false 9 false, .mint true false 4 true, .initializeGlobal false] ∧
        r.2.state.allKitties false = some [⟨true, true⟩, ⟨false, true⟩] ∧
        HasMinted true r.1 ∧ r.2.state.entry true 2 = none ∧
        r.2.state.genesOf false 0 = 4 ∧ r.2.state.genesOf false 1 = 9 ∧
        r.2.state.entry true 6 = none ∧ r.2.state.newborns false = some 0 :=
    ⟨_, rfl, rfl, rfl, ⟨false, 9, false, List.mem_cons_self⟩, rfl, rfl, rfl, rfl, rfl⟩
  have hr := Machine.exec_run hx
  have hgenes : ∀ owner global genes gender, .mint owner global genes gender ∈ calls h →
      genes < 2 ^ 64 - 1 := by
    intro owner global genes gender hmem
    rw [hcalls] at hmem
    simp only [List.mem_cons, Call.mint.injEq, List.not_mem_nil, or_false, reduceCtorEq] at hmem
    omega
  have hmix : Nat.sqrt 4 * Nat.sqrt 9 = 6 :=
    congrArg₂ (· * ·) (Nat.sqrt_eq 2) (Nat.sqrt_eq 3)
  obtain ⟨hmint, hbreed⟩ := never_fails_iff hr hgenes hall
  refine ⟨h, c, hr, hcalls, (hmint true 7 true).mpr hfree,
    (hbreed true 0 1 true hminted (by decide) (by decide)).mpr ⟨?_, fun n hn => ?_⟩⟩
  · rw [hm, hs, hmix]
    exact hbred
  · cases hcount.symm.trans hn
    decide

/-- An account mints twice and breeds the two, and all four transactions succeed. Then it cannot
breed them again; and if their genes give the next index, it cannot mint. -/
theorem second_add_aborts :
    (∃ c : Config (Storage Bool) Empty,
      machine.Run Anything ⟨empty Bool, 0⟩ [.call (.breed true false 0 1 true) (.ok ()),
        .call (.mint true false 9 false) (.ok ()), .call (.mint true false 4 true) (.ok ()),
        .call (.initializeGlobal false) (.ok ())] c ∧
      breed true false 0 1 true c.state = .error .keyAlreadyExists) ∧
    ∃ c : Config (Storage Bool) Empty,
      machine.Run Anything ⟨empty Bool, 0⟩ [.call (.breed true false 0 1 true) (.ok ()),
        .call (.mint true false 1 false) (.ok ()), .call (.mint true false 4 true) (.ok ()),
        .call (.initializeGlobal false) (.ok ())] c ∧
      mint true false 7 true c.state = .error .keyAlreadyExists := by
  constructor
  · obtain ⟨⟨h, c⟩, hx, hh, habort⟩ :
        ∃ r ∈ machine.exec Anything ⟨empty Bool, 0⟩ [.call (.initializeGlobal false),
            .call (.mint true false 4 true), .call (.mint true false 9 false),
            .call (.breed true false 0 1 true)],
          r.1 = [.call (.breed true false 0 1 true) (.ok ()),
            .call (.mint true false 9 false) (.ok ()), .call (.mint true false 4 true) (.ok ()),
            .call (.initializeGlobal false) (.ok ())] ∧
          breed true false 0 1 true r.2.state = .error .keyAlreadyExists := ⟨_, rfl, rfl, rfl⟩
    exact ⟨c, hh ▸ Machine.exec_run hx, habort⟩
  · obtain ⟨⟨h, c⟩, hx, hh, habort⟩ :
        ∃ r ∈ machine.exec Anything ⟨empty Bool, 0⟩ [.call (.initializeGlobal false),
            .call (.mint true false 4 true), .call (.mint true false 1 false),
            .call (.breed true false 0 1 true)],
          r.1 = [.call (.breed true false 0 1 true) (.ok ()),
            .call (.mint true false 1 false) (.ok ()), .call (.mint true false 4 true) (.ok ()),
            .call (.initializeGlobal false) (.ok ())] ∧
          mint true false 7 true r.2.state = .error .keyAlreadyExists := ⟨_, rfl, rfl, rfl⟩
    exact ⟨c, hh ▸ Machine.exec_run hx, habort⟩

end KittyBreeding

end Aptos

end RelayContracts
