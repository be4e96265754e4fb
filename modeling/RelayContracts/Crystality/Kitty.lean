import RelayContracts.Sei.Kitty

/-!
# The Crystality kitty contract

The contract of `KittyBreeding.sol` among the Crystality contracts, a translation of the PREDA
contract into functions that relay to each other. Its state is that of the PREDA contract over
`uint256`, and `sqrt` and `genesMix` are those of the Sei contract.

A relay of PREDA sees the variables it captures and who initiated the transaction. Here everything a
handler needs is an argument of it, and what the next handler needs has to be passed on.
`breed` does not pass on who called it, so the newborn cannot find its way back; and
`_relay_lambda_4` fills in the record of a newborn and drops it, so that `finalize` finds nothing to
register.

All handlers are public, so each can be executed as a relay or be called by anybody. An address that
is called with `address(888)`, `address(777)` or `address(666)` stands for the global scope, for
every shard, and for the address in the first argument.

## Main definitions

* `Call`, `Relay`, `machine` — the contract
* `Delivered` — what a handler that succeeds does
-/

namespace RelayContracts

namespace Crystality

namespace KittyBreeding

open RelayMachine
open Preda (Chain)
open Preda.KittyBreeding (KittyInfo Kitty Minted State deployed)
open Sei.KittyBreeding (body newBornKey newBornKey_zero)

/-- The relays: handlers with their arguments, and for `_relay_lambda_6` the shard. -/
inductive Relay (A : Type) (k : ℕ) where
  /-- `_relay_lambda_0(owner, genes, gender)`. -/
  | lambda0 (owner : A) (genes : ℕ) (gender : Bool)
  /-- `_relay_lambda_1(_scope, genes, id)`. -/
  | lambda1 (scope : A) (genes id : ℕ)
  /-- `_relay_lambda_2(_scope, m, s, gender)`. -/
  | lambda2 (scope : A) (m s : ℕ) (gender : Bool)
  /-- `_relay_lambda_3(_scope, m_genes, m, s, gender)`. -/
  | lambda3 (scope : A) (mGenes m s : ℕ) (gender : Bool)
  /-- `_relay_lambda_4(_scope, m, s, gender, new_genes)`. -/
  | lambda4 (scope : A) (m s : ℕ) (gender : Bool) (newGenes : ℕ)
  /-- `_relay_lambda_5()`. -/
  | lambda5
  /-- `_relay_lambda_6()`, at a shard. -/
  | lambda6 (shard : Fin (2 ^ k))
  /-- `_relay_lambda_7(_addresses)`. -/
  | lambda7 (addresses : List A)
  /-- `_relay_lambda_8(_scope, i, id)`. -/
  | lambda8 (scope : A) (i id : ℕ)
  deriving DecidableEq, Repr

/-- The public functions, and the chain moving to another block. -/
inductive Call (A : Type) (k : ℕ) where
  /-- `mint(owner, genes, gender)`. -/
  | mint (owner : A) (genes : ℕ) (gender : Bool)
  /-- `breed(_scope, m, s, gender)`. -/
  | breed (scope : A) (m s : ℕ) (gender : Bool)
  /-- `finalize(_scope)`. -/
  | finalize (scope : A)
  /-- A handler, called directly. -/
  | direct (r : Relay A k)
  /-- The chain moves to a block of this number. -/
  | newBlock (number : ℕ)
  deriving DecidableEq, Repr

variable {A : Type} {k : ℕ}

/-- Whether a call is a mint. -/
def Call.isMint : Call A k → Bool
  | .mint _ _ _ => true
  | .newBlock _ => true
  | _ => false

/-- Whether a call is one of `mint`, `breed` and `finalize`, and not of a handler. -/
def Call.isOperation : Call A k → Bool
  | .direct _ => false
  | _ => true

/-! ### The functions -/

/-- `create(gender, owner)`. -/
def create (gender : Bool) (owner : A) (st : State A ℕ k) : ℕ × State A ℕ k :=
  Preda.KittyBreeding.create gender owner st

/-- `genesMix(m_genes, s_gengs)`. -/
def genesMix (mGenes sGenes : ℕ) : Except Fault ℕ := Sei.KittyBreeding.genesMix mGenes sGenes

/-- `mint(owner, genes, gender)`. -/
def mint (owner : A) (genes : ℕ) (gender : Bool) (st : State A ℕ k) :
    Except Fault (Effect (State A ℕ k) (Relay A k) Unit) :=
  .ok ⟨st, (), [.lambda0 owner genes gender]⟩

/-- `breed(_scope, m, s, gender)`, which does not look at its scope. -/
def breed (_scope : A) (m s : ℕ) (gender : Bool) (st : State A ℕ k) :
    Except Fault (Effect (State A ℕ k) (Relay A k) Unit) :=
  if m < st.allKitties.length then
    if s < st.allKitties.length then
      match st.allKitties[m]?, st.allKitties[s]? with
      | some matron, some sire =>
        if matron.gender then
          if !sire.gender then .ok ⟨st, (), [.lambda2 matron.owner m s gender]⟩
          else .error .assertion
        else .error .assertion
      | _, _ => .error .outOfRange
    else .error .assertion
  else .error .assertion

/-- `finalize(_scope)`, which does not look at its scope. -/
def finalize (_scope : A) (st : State A ℕ k) :
    Except Fault (Effect (State A ℕ k) (Relay A k) Unit) :=
  .ok ⟨st, (), [.lambda5]⟩

/-- `_relay_lambda_0(owner, genes, gender)`. -/
def relayLambda0 (owner : A) (genes : ℕ) (gender : Bool) (st : State A ℕ k) :
    Except Fault (Effect (State A ℕ k) (Relay A k) Unit) :=
  let (id, st) := create gender owner st
  .ok ⟨st, (), [.lambda1 owner genes id]⟩

/-- `_relay_lambda_5()`, which relays to every shard. -/
def relayLambda5 (st : State A ℕ k) : Except Fault (Effect (State A ℕ k) (Relay A k) Unit) :=
  .ok ⟨st, (), (List.finRange (2 ^ k)).map .lambda6⟩

/-- `_relay_lambda_6()`, at a shard. -/
def relayLambda6 (shard : Fin (2 ^ k)) (st : State A ℕ k) :
    Except Fault (Effect (State A ℕ k) (Relay A k) Unit) :=
  if (st.newBorns shard).length > 0 then
    .ok ⟨{ st with newBorns := Function.update st.newBorns shard [] }, (),
      [.lambda7 ((st.newBorns shard).map KittyInfo.owner)]⟩
  else .ok ⟨st, (), []⟩

/-- `_relay_lambda_7(_addresses)`. The id is the same in every round of the loop. -/
def relayLambda7 (addresses : List A) (st : State A ℕ k) :
    Except Fault (Effect (State A ℕ k) (Relay A k) Unit) :=
  .ok ⟨st, (), addresses.zipIdx.map fun (a, i) => .lambda8 a i addresses.length⟩

variable [DecidableEq A]

/-- `_addNewKittyToAddr(_scope, genes, id, matronId, sireId)`. -/
def addNewKittyToAddr (scope : A) (genes id matronId sireId : ℕ) (st : State A ℕ k) :
    State A ℕ k :=
  st.put scope id ⟨id, genes, matronId, sireId, st.height⟩

/-- `_relay_lambda_1(_scope, genes, id)`. -/
def relayLambda1 (scope : A) (genes id : ℕ) (st : State A ℕ k) :
    Except Fault (Effect (State A ℕ k) (Relay A k) Unit) :=
  .ok ⟨addNewKittyToAddr scope genes id (2 ^ 256 - 1) (2 ^ 256 - 1) st, (), []⟩

/-- `_relay_lambda_2(_scope, m, s, gender)`. -/
def relayLambda2 (scope : A) (m s : ℕ) (gender : Bool) (st : State A ℕ k) :
    Except Fault (Effect (State A ℕ k) (Relay A k) Unit) :=
  let st := st.put scope m { st.read scope m with lastBreed := st.height }
  match st.allKitties[s]? with
  | none => .error .outOfRange
  | some sire => .ok ⟨st, (), [.lambda3 sire.owner (st.read scope m).genes m s gender]⟩

/-- `_relay_lambda_3(_scope, m_genes, m, s, gender)`. -/
def relayLambda3 (scope : A) (mGenes m s : ℕ) (gender : Bool) (st : State A ℕ k) :
    Except Fault (Effect (State A ℕ k) (Relay A k) Unit) := do
  let newGenes ← genesMix mGenes (st.read scope s).genes
  .ok ⟨st, (), [.lambda4 scope m s gender newGenes]⟩

/-- `_relay_lambda_4(_scope, m, s, gender, new_genes)`, at the shard of its scope. -/
def relayLambda4 (shard : Fin (2 ^ k)) (scope : A) (m s : ℕ) (gender : Bool) (newGenes : ℕ)
    (st : State A ℕ k) : Except Fault (Effect (State A ℕ k) (Relay A k) Unit) := do
  let birthTime := st.height
  let idNb := newBornKey (st.newBorns shard).length
  let st := addNewKittyToAddr scope newGenes idNb m s st
  -- The record is filled in and goes nowhere.
  let _n : KittyInfo A := ⟨gender, birthTime, scope⟩
  let newBornNums ← addU .trap 256 (st.newBornNums shard) 1
  .ok ⟨{ st with newBornNums := Function.update st.newBornNums shard newBornNums }, (), []⟩

/-- `_relay_lambda_8(_scope, i, id)`. -/
def relayLambda8 (scope : A) (i id : ℕ) (st : State A ℕ k) :
    Except Fault (Effect (State A ℕ k) (Relay A k) Unit) :=
  let idNb := 1 <<< 255 ||| i
  let st := st.put scope id (st.read scope idNb)
  .ok ⟨st.erase scope idNb, (), []⟩

/-- Execute a handler. -/
def handle (X : Chain A) : Relay A X.shardOrder → State A ℕ X.shardOrder →
    Except Fault (Effect (State A ℕ X.shardOrder) (Relay A X.shardOrder) Unit)
  | .lambda0 owner genes gender => relayLambda0 owner genes gender
  | .lambda1 scope genes id => relayLambda1 scope genes id
  | .lambda2 scope m s gender => relayLambda2 scope m s gender
  | .lambda3 scope mGenes m s gender => relayLambda3 scope mGenes m s gender
  | .lambda4 scope m s gender newGenes =>
    relayLambda4 (X.shardOf scope) scope m s gender newGenes
  | .lambda5 => relayLambda5
  | .lambda6 shard => relayLambda6 shard
  | .lambda7 addresses => relayLambda7 addresses
  | .lambda8 scope i id => relayLambda8 scope i id

/-- The contract as a relay machine. -/
def machine (X : Chain A) : Machine (State A ℕ X.shardOrder) (Call A X.shardOrder)
    (Relay A X.shardOrder) Unit Fault where
  call
    | .mint owner genes gender => mint owner genes gender
    | .breed scope m s gender => breed scope m s gender
    | .finalize scope => finalize scope
    | .direct r => handle X r
    | .newBlock height => fun st => .ok ⟨{ st with height }, (), []⟩
  relay := handle X

/-- The events of a run of the contract, latest first. -/
abbrev History (A : Type) (k : ℕ) := List (Event (Call A k) (Relay A k) Unit Fault)

/-! ### What a function that succeeds does -/

/-- What the four `require` of `breed` ask for. -/
structure Parents (st : State A ℕ k) (m s : ℕ) (matron sire : KittyInfo A) : Prop where
  /-- There is a matron. -/
  matron_eq : st.allKitties[m]? = some matron
  /-- There is a sire. -/
  sire_eq : st.allKitties[s]? = some sire
  /-- The matron is one. -/
  matron_gender : matron.gender = true
  /-- The sire is one. -/
  sire_gender : sire.gender = false

omit [DecidableEq A] in
/-- **When `breed` succeeds**, and what it relays then. -/
theorem breed_eq_ok (scope : A) {m s : ℕ} {gender : Bool} {st : State A ℕ k}
    {eff : Effect (State A ℕ k) (Relay A k) Unit} :
    breed scope m s gender st = .ok eff ↔
      ∃ matron sire, Parents st m s matron sire ∧
        eff = ⟨st, (), [.lambda2 matron.owner m s gender]⟩ := by
  constructor
  · intro h
    obtain ⟨hm, h⟩ := of_require_eq_ok h
    obtain ⟨hs, h⟩ := of_require_eq_ok h
    rw [List.getElem?_eq_getElem hm, List.getElem?_eq_getElem hs] at h
    obtain ⟨hmgender, h⟩ := of_require_eq_ok h
    obtain ⟨hsgender, h⟩ := of_require_eq_ok h
    cases h
    exact ⟨_, _, ⟨List.getElem?_eq_getElem hm, List.getElem?_eq_getElem hs, hmgender,
      by simpa using hsgender⟩, rfl⟩
  · rintro ⟨matron, sire, ⟨hmatron, hsire, hmgender, hsgender⟩, rfl⟩
    have hm : m < st.allKitties.length := (List.getElem?_eq_some_iff.mp hmatron).1
    have hs : s < st.allKitties.length := (List.getElem?_eq_some_iff.mp hsire).1
    rw [breed, if_pos hm, if_pos hs, hmatron, hsire]
    simp only [hmgender, hsgender, if_true, Bool.not_false]

/-- What a handler that succeeds does. -/
inductive Delivered (X : Chain A) (st : State A ℕ X.shardOrder) :
    Relay A X.shardOrder → Effect (State A ℕ X.shardOrder) (Relay A X.shardOrder) Unit → Prop
  /-- A mint enters the kitty in `allKitties` and relays its genes. -/
  | lambda0 (owner : A) (genes : ℕ) (gender : Bool) :
      Delivered X st (.lambda0 owner genes gender)
        ⟨{ st with allKitties := st.allKitties ++ [⟨gender, st.height, owner⟩] }, (),
          [.lambda1 owner genes st.allKitties.length]⟩
  /-- The owner stores a minted kitty. -/
  | lambda1 (scope : A) (genes id : ℕ) :
      Delivered X st (.lambda1 scope genes id)
        ⟨st.put scope id ⟨id, genes, 2 ^ 256 - 1, 2 ^ 256 - 1, st.height⟩, (), []⟩
  /-- The matron's genes are sent to the owner of the sire. -/
  | lambda2 {scope : A} {m s : ℕ} {gender : Bool} {sire : KittyInfo A}
      (hs : st.allKitties[s]? = some sire) :
      Delivered X st (.lambda2 scope m s gender)
        ⟨st.put scope m { st.read scope m with lastBreed := st.height }, (),
          [.lambda3 sire.owner (st.read scope m).genes m s gender]⟩
  /-- The mixture is sent to the same address. -/
  | lambda3 {scope : A} {mGenes m s : ℕ} {gender : Bool} (hm : mGenes < 2 ^ 256 - 1)
      (hs : (st.read scope s).genes < 2 ^ 256 - 1) :
      Delivered X st (.lambda3 scope mGenes m s gender)
        ⟨st, (), [.lambda4 scope m s gender
          (Nat.sqrt mGenes * Nat.sqrt (st.read scope s).genes)]⟩
  /-- A newborn is stored, and counted. -/
  | lambda4 {scope : A} {m s : ℕ} {gender : Bool} {newGenes idNb : ℕ}
      (hid : idNb = newBornKey (st.newBorns (X.shardOf scope)).length)
      (hroom : st.newBornNums (X.shardOf scope) + 1 < 2 ^ 256) :
      Delivered X st (.lambda4 scope m s gender newGenes)
        ⟨{ st.put scope idNb ⟨idNb, newGenes, m, s, st.height⟩ with
          newBornNums := Function.update st.newBornNums (X.shardOf scope)
            (st.newBornNums (X.shardOf scope) + 1) }, (), []⟩
  /-- Every shard is asked for its newborns. -/
  | lambda5 : Delivered X st .lambda5 ⟨st, (), (List.finRange (2 ^ X.shardOrder)).map .lambda6⟩
  /-- A shard sends off its newborns. -/
  | lambda6 {shard : Fin (2 ^ X.shardOrder)} (hsome : st.newBorns shard ≠ []) :
      Delivered X st (.lambda6 shard)
        ⟨{ st with newBorns := Function.update st.newBorns shard [] }, (),
          [.lambda7 ((st.newBorns shard).map KittyInfo.owner)]⟩
  /-- It has none. -/
  | lambda6None {shard : Fin (2 ^ X.shardOrder)} (hnone : st.newBorns shard = []) :
      Delivered X st (.lambda6 shard) ⟨st, (), []⟩
  /-- The owners are told to move their newborns. -/
  | lambda7 (addresses : List A) :
      Delivered X st (.lambda7 addresses)
        ⟨st, (), addresses.zipIdx.map fun (a, i) => .lambda8 a i addresses.length⟩
  /-- An owner moves a newborn. -/
  | lambda8 (scope : A) (i id : ℕ) :
      Delivered X st (.lambda8 scope i id)
        ⟨(st.put scope id (st.read scope (1 <<< 255 ||| i))).erase scope (1 <<< 255 ||| i), (), []⟩

section Specs

variable {X : Chain A} {st : State A ℕ X.shardOrder}
  {eff : Effect (State A ℕ X.shardOrder) (Relay A X.shardOrder) Unit}

theorem delivered_of_ok {r : Relay A X.shardOrder} (h : (machine X).relay r st = .ok eff) :
    Delivered X st r eff := by
  cases r with
  | lambda0 owner genes gender =>
    cases h
    exact .lambda0 owner genes gender
  | lambda1 scope genes id =>
    cases h
    exact .lambda1 scope genes id
  | lambda2 scope m s gender =>
    have h : relayLambda2 scope m s gender st = .ok eff := h
    rw [relayLambda2] at h
    dsimp only at h
    split at h
    · cases h
    · rename_i sire hs
      cases h
      have hread : ∀ x : Kitty ℕ, ((st.put scope m x).read scope m).genes = x.genes := by
        simp [State.read]
      rw [hread]
      exact .lambda2 hs
  | lambda3 scope mGenes m s gender =>
    obtain ⟨newGenes, hmix, h⟩ := exists_of_bind_eq_ok h
    obtain ⟨hm, hs, rfl⟩ := Sei.KittyBreeding.genesMix_eq_ok.mp hmix
    cases h
    exact .lambda3 hm hs
  | lambda4 scope m s gender newGenes =>
    obtain ⟨n, hn, h⟩ := exists_of_bind_eq_ok h
    obtain ⟨hroom, rfl⟩ := addU_trap_eq_ok.mp hn
    cases h
    exact .lambda4 rfl hroom
  | lambda5 =>
    cases h
    exact .lambda5
  | lambda6 shard =>
    have h : relayLambda6 shard st = .ok eff := h
    rw [relayLambda6] at h
    split at h
    · rename_i hlen
      cases h
      exact .lambda6 (List.ne_nil_of_length_pos hlen)
    · rename_i hlen
      cases h
      exact .lambda6None (List.length_eq_zero_iff.mp (Nat.eq_zero_of_not_pos hlen))
  | lambda7 addresses =>
    cases h
    exact .lambda7 addresses
  | lambda8 scope i id =>
    cases h
    exact .lambda8 scope i id

/-- `_relay_lambda_2` fails only if there is no sire. -/
theorem lambda2_error {scope : A} {m s : ℕ} {gender : Bool} {f : Fault}
    (h : (machine X).relay (.lambda2 scope m s gender) st = .error f) :
    st.allKitties[s]? = none := by
  have h : relayLambda2 scope m s gender st = .error f := h
  rw [relayLambda2] at h
  dsimp only at h
  split at h
  · assumption
  · cases h

/-- `_relay_lambda_3` fails if a parent's genes have no square root. -/
theorem lambda3_error {scope : A} {mGenes m s : ℕ} {gender : Bool} {f : Fault}
    (h : (machine X).relay (.lambda3 scope mGenes m s gender) st = .error f) :
    ¬ (mGenes < 2 ^ 256 - 1 ∧ (st.read scope s).genes < 2 ^ 256 - 1) := by
  rintro ⟨hm, hs⟩
  have hmix : genesMix mGenes (st.read scope s).genes = .ok _ :=
    Sei.KittyBreeding.genesMix_eq_ok.mpr ⟨hm, hs, rfl⟩
  have h : relayLambda3 scope mGenes m s gender st = .error f := h
  rw [relayLambda3, hmix] at h
  cases h

/-- `_relay_lambda_4` fails only if the counter is full. -/
theorem lambda4_error {scope : A} {m s : ℕ} {gender : Bool} {newGenes : ℕ} {f : Fault}
    (h : (machine X).relay (.lambda4 scope m s gender newGenes) st = .error f) :
    ¬ st.newBornNums (X.shardOf scope) + 1 < 2 ^ 256 := by
  intro hroom
  have h : (addU .trap 256 (st.newBornNums (X.shardOf scope)) 1 >>= fun n => .ok _) =
    .error f := h
  rw [addU_of_lt hroom] at h
  cases h

end Specs

end KittyBreeding

end Crystality

end RelayContracts
