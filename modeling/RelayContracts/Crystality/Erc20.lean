import Mathlib.Algebra.Order.BigOperators.Group.Finset
import RelayContracts.FixedWidth
import RelayContracts.Ledger
import RelayContracts.RelayMachine

/-!
# The Crystality ERC20 contract

The token contract of `ERC20.sol` among the Crystality contracts. A credit is relayed to the scope
of its receiver, `address(666)`, and a change of the total supply to the global scope,
`address(888)`. All arithmetic is checked, and a relay whose arithmetic fails reverts: it changes
nothing and is not retried.

`mint` and `burn` change a balance at once and the supply later, so the supply can be asked to
shrink before it has grown. Then `_subtotalsupply` reverts and the books stay apart for good:
`totalSupply_eq_iff` says that they agree exactly if every `_subtotalsupply` was executed when the
supply covered it. A credit that reverts is lost as well, since its debit has been made:
`credits_matched_iff` says that none is lost exactly if every `_deposit` found room.

Events are not modelled: no function reads them.
-/

namespace RelayContracts

namespace Crystality

namespace Erc20

open RelayMachine

/-- The state of the contract. -/
structure State (A : Type) where
  /-- `uint public totalSupply`. -/
  totalSupply : ℕ
  /-- `mapping (address => uint) public balance`. -/
  balance : A → ℕ
  /-- `mapping (address => mapping(address=>uint)) public allowance`. -/
  allowance : A → A → ℕ

/-- The external and public functions. `msgSender` is `msg.sender`, where the function reads it. -/
inductive Call (A : Type) where
  /-- `mint(_scope, amount)`. -/
  | mint (msgSender scope : A) (amount : ℕ)
  /-- `transfer(_scope, recipient, amount)`. -/
  | transfer (msgSender scope recipient : A) (amount : ℕ)
  /-- `approve(_scope, spender, amount)`. -/
  | approve (msgSender scope spender : A) (amount : ℕ)
  /-- `transferFrom(_scope, sender, recipient, amount)`. -/
  | transferFrom (msgSender scope sender recipient : A) (amount : ℕ)
  /-- `burn(_scope, amount)`. -/
  | burn (msgSender scope : A) (amount : ℕ)
  /-- `_deposit(_scope, amount)`, called directly. -/
  | deposit (scope : A) (amount : ℕ)
  /-- `_addtotalsupply(amount)`, called directly. -/
  | addTotalSupply (amount : ℕ)
  /-- `_subtotalsupply(amount)`, called directly. -/
  | subTotalSupply (amount : ℕ)
  deriving DecidableEq, Repr

/-- The relays. -/
inductive Relay (A : Type) where
  /-- `address(666).call(_deposit(_scope, amount))`. -/
  | deposit (scope : A) (amount : ℕ)
  /-- `address(888).call(_addtotalsupply(amount))`. -/
  | addTotalSupply (amount : ℕ)
  /-- `address(888).call(_subtotalsupply(amount))`. -/
  | subTotalSupply (amount : ℕ)
  deriving DecidableEq, Repr

variable {A : Type}

/-- The state a deployment starts from. -/
def empty : State A := ⟨0, fun _ => 0, fun _ _ => 0⟩

/-! ### The functions -/

/-- `_addtotalsupply(amount)`. -/
def addTotalSupply (amount : ℕ) (s : State A) :
    Except Fault (Effect (State A) (Relay A) (Option Bool)) := do
  let totalSupply ← addU .trap 256 s.totalSupply amount
  .ok ⟨{ s with totalSupply }, none, []⟩

/-- `_subtotalsupply(amount)`. -/
def subTotalSupply (amount : ℕ) (s : State A) :
    Except Fault (Effect (State A) (Relay A) (Option Bool)) := do
  let totalSupply ← subU s.totalSupply amount
  .ok ⟨{ s with totalSupply }, none, []⟩

variable [DecidableEq A]

/-- `mint(_scope, amount)`. -/
def mint (msgSender scope : A) (amount : ℕ) (s : State A) :
    Except Fault (Effect (State A) (Relay A) (Option Bool)) :=
  if msgSender = scope then do
    let v ← addU .trap 256 (s.balance scope) amount
    .ok ⟨{ s with balance := Function.update s.balance scope v }, none, [.addTotalSupply amount]⟩
  else .error .assertion

/-- `_deposit(_scope, amount)`. -/
def deposit (scope : A) (amount : ℕ) (s : State A) :
    Except Fault (Effect (State A) (Relay A) (Option Bool)) := do
  let v ← addU .trap 256 (s.balance scope) amount
  .ok ⟨{ s with balance := Function.update s.balance scope v }, none, []⟩

/-- `transfer(_scope, recipient, amount)`. -/
def transfer (msgSender scope recipient : A) (amount : ℕ) (s : State A) :
    Except Fault (Effect (State A) (Relay A) (Option Bool)) :=
  if msgSender = scope then do
    let v ← subU (s.balance scope) amount
    .ok ⟨{ s with balance := Function.update s.balance scope v }, some true,
      [.deposit recipient amount]⟩
  else .error .assertion

/-- `approve(_scope, spender, amount)`. -/
def approve (msgSender scope spender : A) (amount : ℕ) (s : State A) :
    Except Fault (Effect (State A) (Relay A) (Option Bool)) :=
  if msgSender = scope then
    .ok ⟨{ s with
      allowance := Function.update s.allowance scope
        (Function.update (s.allowance scope) spender amount) }, some true, []⟩
  else .error .assertion

/-- `transferFrom(_scope, sender, recipient, amount)`. -/
def transferFrom (msgSender scope sender recipient : A) (amount : ℕ) (s : State A) :
    Except Fault (Effect (State A) (Relay A) (Option Bool)) :=
  if sender = scope then do
    let allowed ← subU (s.allowance scope msgSender) amount
    let v ← subU (s.balance scope) amount
    .ok ⟨{ s with
      allowance := Function.update s.allowance scope
        (Function.update (s.allowance scope) msgSender allowed)
      balance := Function.update s.balance scope v }, some true, [.deposit recipient amount]⟩
  else .error .assertion

/-- `burn(_scope, amount)`. -/
def burn (msgSender scope : A) (amount : ℕ) (s : State A) :
    Except Fault (Effect (State A) (Relay A) (Option Bool)) :=
  if msgSender = scope then do
    let v ← subU (s.balance scope) amount
    .ok ⟨{ s with balance := Function.update s.balance scope v }, none, [.subTotalSupply amount]⟩
  else .error .assertion

/-- The contract as a relay machine. -/
def machine : Machine (State A) (Call A) (Relay A) (Option Bool) Fault where
  call
    | .mint msgSender scope amount => mint msgSender scope amount
    | .transfer msgSender scope recipient amount => transfer msgSender scope recipient amount
    | .approve msgSender scope spender amount => approve msgSender scope spender amount
    | .transferFrom msgSender scope sender recipient amount =>
      transferFrom msgSender scope sender recipient amount
    | .burn msgSender scope amount => burn msgSender scope amount
    | .deposit scope amount => deposit scope amount
    | .addTotalSupply amount => addTotalSupply amount
    | .subTotalSupply amount => subTotalSupply amount
  relay
    | .deposit scope amount => deposit scope amount
    | .addTotalSupply amount => addTotalSupply amount
    | .subTotalSupply amount => subTotalSupply amount

/-! ### What a successful step did -/

/-- What a successful relay did, at a state `s`. -/
inductive Delivered (s : State A) : Relay A → Effect (State A) (Relay A) (Option Bool) → Prop
  /-- A scope is credited. -/
  | deposit {scope : A} {amount : ℕ} (hfit : s.balance scope + amount < 2 ^ 256) :
      Delivered s (.deposit scope amount) ⟨{ s with
        balance := Function.update s.balance scope (s.balance scope + amount) }, none, []⟩
  /-- The supply grows. -/
  | addTotalSupply {amount : ℕ} (hfit : s.totalSupply + amount < 2 ^ 256) :
      Delivered s (.addTotalSupply amount)
        ⟨{ s with totalSupply := s.totalSupply + amount }, none, []⟩
  /-- The supply shrinks. -/
  | subTotalSupply {amount : ℕ} (hle : amount ≤ s.totalSupply) :
      Delivered s (.subTotalSupply amount)
        ⟨{ s with totalSupply := s.totalSupply - amount }, none, []⟩

/-- What a successful operation did, at a state `s`. -/
inductive Called (s : State A) : Call A → Effect (State A) (Relay A) (Option Bool) → Prop
  /-- `mint` credited its caller. -/
  | mint {a : A} {amount : ℕ} (hfit : s.balance a + amount < 2 ^ 256) :
      Called s (.mint a a amount) ⟨{ s with
        balance := Function.update s.balance a (s.balance a + amount) }, none,
          [.addTotalSupply amount]⟩
  /-- `transfer` debited its caller. -/
  | transfer {a recipient : A} {amount : ℕ} (hle : amount ≤ s.balance a) :
      Called s (.transfer a a recipient amount) ⟨{ s with
        balance := Function.update s.balance a (s.balance a - amount) }, some true,
          [.deposit recipient amount]⟩
  /-- `approve` set an allowance. -/
  | approve {a spender : A} {amount : ℕ} :
      Called s (.approve a a spender amount) ⟨{ s with
        allowance := Function.update s.allowance a
          (Function.update (s.allowance a) spender amount) }, some true, []⟩
  /-- `transferFrom` used up an allowance and debited the sender. -/
  | transferFrom {p a recipient : A} {amount : ℕ} (hallowed : amount ≤ s.allowance a p)
      (hle : amount ≤ s.balance a) :
      Called s (.transferFrom p a a recipient amount) ⟨{ s with
        allowance := Function.update s.allowance a
          (Function.update (s.allowance a) p (s.allowance a p - amount))
        balance := Function.update s.balance a (s.balance a - amount) }, some true,
          [.deposit recipient amount]⟩
  /-- `burn` debited its caller. -/
  | burn {a : A} {amount : ℕ} (hle : amount ≤ s.balance a) :
      Called s (.burn a a amount) ⟨{ s with
        balance := Function.update s.balance a (s.balance a - amount) }, none,
          [.subTotalSupply amount]⟩
  /-- `_deposit` was called directly. -/
  | deposit {scope : A} {amount : ℕ} {eff : Effect (State A) (Relay A) (Option Bool)}
      (hd : Delivered s (.deposit scope amount) eff) : Called s (.deposit scope amount) eff
  /-- `_addtotalsupply` was called directly. -/
  | addTotalSupply {amount : ℕ} {eff : Effect (State A) (Relay A) (Option Bool)}
      (hd : Delivered s (.addTotalSupply amount) eff) : Called s (.addTotalSupply amount) eff
  /-- `_subtotalsupply` was called directly. -/
  | subTotalSupply {amount : ℕ} {eff : Effect (State A) (Relay A) (Option Bool)}
      (hd : Delivered s (.subTotalSupply amount) eff) : Called s (.subTotalSupply amount) eff

variable {s : State A} {eff : Effect (State A) (Relay A) (Option Bool)}

/-- The arithmetic of a relay stays in range at a state `s`. -/
def Relay.InRange (s : State A) : Relay A → Prop
  | .deposit scope amount => s.balance scope + amount < 2 ^ 256
  | .addTotalSupply amount => s.totalSupply + amount < 2 ^ 256
  | .subTotalSupply amount => amount ≤ s.totalSupply

/-- A relay reverts only for its arithmetic. -/
theorem relay_ne_error {m : Relay A} {f : Fault} (hm : m.InRange s) :
    machine.relay m s ≠ .error f := by
  intro h
  cases m with
  | deposit scope amount =>
    rw [show machine.relay (.deposit scope amount) s = deposit scope amount s from rfl, deposit,
      addU_of_lt hm] at h
    cases h
  | addTotalSupply amount =>
    rw [show machine.relay (.addTotalSupply amount) s = addTotalSupply amount s from rfl,
      addTotalSupply, addU_of_lt hm] at h
    cases h
  | subTotalSupply amount =>
    rw [show machine.relay (.subTotalSupply amount) s = subTotalSupply amount s from rfl,
      subTotalSupply, subU_of_le hm] at h
    cases h

theorem delivered_of_ok {m : Relay A} (h : machine.relay m s = .ok eff) : Delivered s m eff := by
  cases m with
  | deposit scope amount =>
    obtain ⟨v, hv, h⟩ := exists_of_bind_eq_ok (show deposit scope amount s = .ok eff from h)
    obtain ⟨hfit, rfl⟩ := addU_trap_eq_ok.mp hv
    cases h
    exact .deposit hfit
  | addTotalSupply amount =>
    obtain ⟨v, hv, h⟩ := exists_of_bind_eq_ok (show addTotalSupply amount s = .ok eff from h)
    obtain ⟨hfit, rfl⟩ := addU_trap_eq_ok.mp hv
    cases h
    exact .addTotalSupply hfit
  | subTotalSupply amount =>
    obtain ⟨v, hv, h⟩ := exists_of_bind_eq_ok (show subTotalSupply amount s = .ok eff from h)
    obtain ⟨hle, rfl⟩ := subU_eq_ok.mp hv
    cases h
    exact .subTotalSupply hle

theorem Delivered.relays_eq_nil {m : Relay A} (hd : Delivered s m eff) : eff.relays = [] := by
  cases hd <;> rfl

theorem called_of_ok {k : Call A} (h : machine.call k s = .ok eff) : Called s k eff := by
  cases k with
  | mint p a amount =>
    obtain ⟨rfl, h⟩ := of_require_eq_ok (show mint p a amount s = .ok eff from h)
    obtain ⟨v, hv, h⟩ := exists_of_bind_eq_ok h
    obtain ⟨hfit, rfl⟩ := addU_trap_eq_ok.mp hv
    cases h
    exact .mint hfit
  | transfer p a recipient amount =>
    obtain ⟨rfl, h⟩ := of_require_eq_ok (show transfer p a recipient amount s = .ok eff from h)
    obtain ⟨v, hv, h⟩ := exists_of_bind_eq_ok h
    obtain ⟨hle, rfl⟩ := subU_eq_ok.mp hv
    cases h
    exact .transfer hle
  | approve p a spender amount =>
    obtain ⟨rfl, h⟩ := of_require_eq_ok (show approve p a spender amount s = .ok eff from h)
    cases h
    exact .approve
  | transferFrom p a sender recipient amount =>
    obtain ⟨rfl, h⟩ :=
      of_require_eq_ok (show transferFrom p a sender recipient amount s = .ok eff from h)
    obtain ⟨allowed, hp, h⟩ := exists_of_bind_eq_ok h
    obtain ⟨v, hv, h⟩ := exists_of_bind_eq_ok h
    obtain ⟨hallowed, rfl⟩ := subU_eq_ok.mp hp
    obtain ⟨hle, rfl⟩ := subU_eq_ok.mp hv
    cases h
    exact .transferFrom hallowed hle
  | burn p a amount =>
    obtain ⟨rfl, h⟩ := of_require_eq_ok (show burn p a amount s = .ok eff from h)
    obtain ⟨v, hv, h⟩ := exists_of_bind_eq_ok h
    obtain ⟨hle, rfl⟩ := subU_eq_ok.mp hv
    cases h
    exact .burn hle
  | deposit scope amount => exact .deposit (delivered_of_ok (m := .deposit scope amount) h)
  | addTotalSupply amount =>
    exact .addTotalSupply (delivered_of_ok (m := .addTotalSupply amount) h)
  | subTotalSupply amount =>
    exact .subTotalSupply (delivered_of_ok (m := .subTotalSupply amount) h)

/-! ### The books along a run of operations -/

/-- The events of a run of the contract, latest first. -/
abbrev History (A : Type) := List (Event (Call A) (Relay A) (Option Bool) Fault)

/-- The five operations, and not the functions the relays are for. -/
def Call.isOperation : Call A → Bool
  | .deposit _ _ | .addTotalSupply _ | .subTotalSupply _ => false
  | _ => true

/-- Only the five operations are called. -/
def OperationsOnly (_ : History A) (_ : Config (State A) (Relay A)) :
    Event (Call A) (Relay A) (Option Bool) Fault → Prop
  | .call k _ => k.isOperation
  | .deliver _ _ => True

instance (h : History A) (c : Config (State A) (Relay A))
    (e : Event (Call A) (Relay A) (Option Bool) Fault) : Decidable (OperationsOnly h c e) :=
  match e with
  | .call k _ => inferInstanceAs (Decidable (k.isOperation = true))
  | .deliver _ _ => isTrue trivial

/-- What a `mint` has brought in. -/
def minted : Event (Call A) (Relay A) (Option Bool) Fault → ℕ
  | .call (.mint _ _ amount) (.ok _) => amount
  | _ => 0

/-- What a `burn` has taken out. -/
def burned : Event (Call A) (Relay A) (Option Bool) Fault → ℕ
  | .call (.burn _ _ amount) (.ok _) => amount
  | _ => 0

/-- What a relay has for a balance. -/
def Relay.toBalance : Relay A → ℕ
  | .deposit _ amount => amount
  | _ => 0

/-- What a relay has to add to the supply. -/
def Relay.toAdd : Relay A → ℕ
  | .addTotalSupply amount => amount
  | _ => 0

/-- What a relay has to subtract from the supply. -/
def Relay.toSubtract : Relay A → ℕ
  | .subTotalSupply amount => amount
  | _ => 0

/-- An operation moves money between the balances, the flight and the outside, and tells the supply
by relays only. -/
theorem Called.books [Fintype A] {k : Call A} (hc : Called s k eff) (hop : k.isOperation) :
    ∑ a, eff.state.balance a + (eff.relays.map Relay.toBalance).sum +
        burned (.call k (.ok eff.value)) =
      ∑ a, s.balance a + minted (.call k (.ok eff.value)) ∧
    eff.state.totalSupply = s.totalSupply ∧
    (eff.relays.map Relay.toAdd).sum = minted (.call k (.ok eff.value)) ∧
    (eff.relays.map Relay.toSubtract).sum = burned (.call k (.ok eff.value)) := by
  cases hc with
  | mint hfit =>
    simp [sum_update_credit, minted, burned, Relay.toBalance, Relay.toAdd, Relay.toSubtract]
  | transfer hle =>
    simp [sum_update_debit s.balance (Nat.sub_add_cancel hle), minted, burned, Relay.toBalance,
      Relay.toAdd, Relay.toSubtract]
  | approve => simp [minted, burned]
  | transferFrom hallowed hle =>
    simp [sum_update_debit s.balance (Nat.sub_add_cancel hle), minted, burned, Relay.toBalance,
      Relay.toAdd, Relay.toSubtract]
  | burn hle =>
    simp [sum_update_debit s.balance (Nat.sub_add_cancel hle), minted, burned, Relay.toBalance,
      Relay.toAdd, Relay.toSubtract]
  | deposit => cases hop
  | addTotalSupply => cases hop
  | subTotalSupply => cases hop

/-- A relay that is executed arrives. -/
theorem Delivered.books [Fintype A] {m : Relay A} (hd : Delivered s m eff) :
    ∑ a, eff.state.balance a = ∑ a, s.balance a + m.toBalance ∧
    eff.state.totalSupply + m.toSubtract = s.totalSupply + m.toAdd ∧ eff.relays = [] := by
  cases hd with
  | deposit hfit =>
    simp [sum_update_credit, Relay.toBalance, Relay.toAdd, Relay.toSubtract]
  | addTotalSupply hfit => simp [Relay.toBalance, Relay.toAdd, Relay.toSubtract]
  | subTotalSupply hle => simp [Relay.toBalance, Relay.toAdd, Relay.toSubtract, hle]

section Runs

variable {h : History A} {c : Config (State A) (Relay A)}

section Books

variable [Fintype A]

/-- **The balances.** What they hold, what is in flight for them, what was burned and what was lost
is what was minted. -/
theorem balances_of_run (hr : machine.Run OperationsOnly ⟨empty, 0⟩ h c) :
    ∑ a, c.state.balance a + c.carried Relay.toBalance +
      (booked burned h + booked (reverted Relay.toBalance) h) = booked minted h := by
  have hbal := hr.conserved (fun s => ∑ a, s.balance a) Relay.toBalance
    (fun e => burned e + reverted Relay.toBalance e) minted ?_ ?_ ?_ ?_
  · simpa [empty, booked_add] using hbal
  · intro h c k eff hop hk
    exact ((called_of_ok hk).books hop).1
  · intro s k f _
    simp [minted, burned]
  · intro s m eff hk
    obtain ⟨hbal, -, hrelays⟩ := (delivered_of_ok hk).books
    simp [hbal, hrelays, minted, burned]
  · intro s m f _
    simp [minted, burned]

/-- **The supply.** What it is, what is in flight to be added, what was subtracted and what was lost
is what was minted. -/
theorem totalSupply_of_run (hr : machine.Run OperationsOnly ⟨empty, 0⟩ h c) :
    c.state.totalSupply + c.carried Relay.toAdd +
      (booked (executed Relay.toSubtract) h + booked (reverted Relay.toAdd) h) =
        booked minted h := by
  have hbal := hr.conserved (fun s => s.totalSupply) Relay.toAdd
    (fun e => executed Relay.toSubtract e + reverted Relay.toAdd e) minted ?_ ?_ ?_ ?_
  · simpa [empty, booked_add] using hbal
  · intro h c k eff hop hk
    obtain ⟨-, hsupply, hadd, -⟩ := (called_of_ok hk).books hop
    simp [hsupply, hadd]
  · intro s k f _
    simp [minted]
  · intro s m eff hk
    obtain ⟨-, hsupply, hrelays⟩ := (delivered_of_ok hk).books
    simp [hsupply, hrelays, minted]
  · intro s m f _
    simp [minted]

/-- **The burns.** What was burned is in flight to be subtracted, was subtracted, or was lost. -/
theorem burns_of_run (hr : machine.Run OperationsOnly ⟨empty, 0⟩ h c) :
    c.carried Relay.toSubtract +
      (booked (executed Relay.toSubtract) h + booked (reverted Relay.toSubtract) h) =
        booked burned h := by
  have hbal := hr.conserved (fun _ => 0) Relay.toSubtract
    (fun e => executed Relay.toSubtract e + reverted Relay.toSubtract e) burned ?_ ?_ ?_ ?_
  · simpa [booked_add] using hbal
  · intro h c k eff hop hk
    obtain ⟨-, -, -, hsub⟩ := (called_of_ok hk).books hop
    simp [hsub]
  · intro s k f _
    simp [burned]
  · intro s m eff hk
    obtain ⟨-, -, hrelays⟩ := (delivered_of_ok hk).books
    simp [hrelays, burned]
  · intro s m f _
    simp [burned]

/-- While the mints sum below `2 ^ 256`, no credit and no growth of the supply is lost. -/
theorem reverted_eq_zero (hr : machine.Run OperationsOnly ⟨empty, 0⟩ h c)
    (hmint : booked minted h < 2 ^ 256) :
    booked (reverted Relay.toBalance) h = 0 ∧ booked (reverted Relay.toAdd) h = 0 := by
  revert hmint
  refine hr.invariant (I := fun h _ => booked minted h < 2 ^ 256 →
    booked (reverted Relay.toBalance) h = 0 ∧ booked (reverted Relay.toAdd) h = 0)
    (fun _ => ⟨rfl, rfl⟩) ?_ ?_ ?_ ?_
  · intro h c k eff _ ih _ _ hmint
    rw [booked_cons] at hmint
    simpa using ih (by omega)
  · intro h c k f _ ih _ _ hmint
    rw [booked_cons] at hmint
    simpa using ih (by omega)
  · intro h s m rest eff _ ih _ _ hmint
    rw [booked_cons] at hmint
    simpa using ih (by omega)
  · intro h s m rest f hr ih _ hk hmint
    have hmint : booked minted h < 2 ^ 256 := by simpa [minted] using hmint
    obtain ⟨hdeposit, hadd⟩ := ih hmint
    rw [booked_cons, booked_cons, hdeposit, hadd]
    cases m with
    | deposit scope amount =>
      -- what the relay carries and what its scope holds are parts of what was minted
      have hbooks := balances_of_run hr
      rw [Config.carried_cons] at hbooks
      have hle : s.balance scope ≤ ∑ a, s.balance a :=
        Finset.single_le_sum (fun _ _ => Nat.zero_le _) (Finset.mem_univ scope)
      refine absurd hk (relay_ne_error (show s.balance scope + amount < 2 ^ 256 from ?_))
      have : ∑ a, s.balance a + amount ≤ booked minted h := by
        dsimp only [Relay.toBalance] at hbooks
        omega
      omega
    | addTotalSupply amount =>
      have hbooks := totalSupply_of_run hr
      rw [Config.carried_cons] at hbooks
      refine absurd hk (relay_ne_error (show s.totalSupply + amount < 2 ^ 256 from ?_))
      dsimp only [Relay.toAdd] at hbooks
      omega
    | subTotalSupply amount => exact ⟨rfl, rfl⟩

/-- **The books in the end.** With nothing in flight, the supply exceeds the balances by the burns
that did not reach it. -/
theorem totalSupply_eq_add_reverted (hr : machine.Run OperationsOnly ⟨empty, 0⟩ h c)
    (hmint : booked minted h < 2 ^ 256) (hq : c.inFlight = 0) :
    c.state.totalSupply = ∑ a, c.state.balance a + booked (reverted Relay.toSubtract) h := by
  obtain ⟨hdeposit, hadd⟩ := reverted_eq_zero hr hmint
  have hbalances := balances_of_run hr
  have hsupply := totalSupply_of_run hr
  have hburns := burns_of_run hr
  rw [Config.carried_of_quiescent _ hq] at hbalances hsupply hburns
  omega

end Books

/-- Only the five operations are called, and `_subtotalsupply` is executed when the supply covers
its amount. -/
def Covered (_ : History A) (c : Config (State A) (Relay A)) :
    Event (Call A) (Relay A) (Option Bool) Fault → Prop
  | .call k _ => k.isOperation
  | .deliver (.subTotalSupply amount) _ => amount ≤ c.state.totalSupply
  | .deliver _ _ => True

instance (h : History A) (c : Config (State A) (Relay A))
    (e : Event (Call A) (Relay A) (Option Bool) Fault) : Decidable (Covered h c e) :=
  match e with
  | .call k _ => inferInstanceAs (Decidable (k.isOperation = true))
  | .deliver (.subTotalSupply amount) _ =>
    inferInstanceAs (Decidable (amount ≤ c.state.totalSupply))
  | .deliver (.deposit _ _) _ | .deliver (.addTotalSupply _) _ => isTrue trivial

theorem Delivered.inRange {m : Relay A} (hd : Delivered s m eff) : m.InRange s := by
  cases hd with
  | deposit hfit => exact hfit
  | addTotalSupply hfit => exact hfit
  | subTotalSupply hle => exact hle

/-- **Losing nothing.** Let a guard hold a run to the operations and to executing the relays that
carry some `w` when their arithmetic stays in range. Then a run of operations reverts no `w` exactly
if it keeps to the guard. -/
theorem reverted_eq_zero_iff (w : Relay A → ℕ)
    {G : History A → Config (State A) (Relay A) →
      Event (Call A) (Relay A) (Option Bool) Fault → Prop}
    (hcall : ∀ {h c k r}, G h c (.call k r) ↔ k.isOperation)
    (hdeliver : ∀ {h c m r}, machine.Run OperationsOnly ⟨empty, 0⟩ h c →
      (G h c (.deliver m r) ↔ (w m ≠ 0 → m.InRange c.state)))
    (hr : machine.Run OperationsOnly ⟨empty, 0⟩ h c) :
    booked (reverted w) h = 0 ↔ machine.Run G ⟨empty, 0⟩ h c := by
  constructor
  · intro hzero
    induction hr with
    | nil => exact .nil
    | @step h c c' e hr hs hg ih =>
      rw [booked_cons, Nat.add_eq_zero_iff] at hzero
      refine (ih hzero.2).step hs ?_
      cases hs with
      | callOk | callError => exact hcall.mpr hg
      | @deliverOk m rest eff hm hk =>
        exact (hdeliver hr).mpr fun _ => (delivered_of_ok hk).inRange
      | @deliverError m rest f hm hk => exact (hdeliver hr).mpr fun hw => absurd hzero.1 hw
  · intro hguard
    have hops : ∀ h c e, G h c e → OperationsOnly h c e := by
      intro h c e he
      cases e with
      | call k r => exact hcall.mp he
      | deliver m r => trivial
    refine hguard.invariant (I := fun h _ => booked (reverted w) h = 0) rfl ?_ ?_ ?_ ?_
    · intro h c k eff _ ih _ _
      rwa [booked_cons, reverted_call, zero_add]
    · intro h c k f _ ih _ _
      rwa [booked_cons, reverted_call, zero_add]
    · intro h s m rest eff _ ih _ _
      rwa [booked_cons, reverted_ok, zero_add]
    · intro h s m rest f hr ih hg hk
      rw [booked_cons, ih, reverted_error, add_zero]
      by_contra hw
      exact relay_ne_error ((hdeliver (hr.mono hops)).mp hg hw) hk

theorem reverted_toSubtract_eq_zero_iff (hr : machine.Run OperationsOnly ⟨empty, 0⟩ h c) :
    booked (reverted Relay.toSubtract) h = 0 ↔ machine.Run Covered ⟨empty, 0⟩ h c := by
  refine reverted_eq_zero_iff Relay.toSubtract Iff.rfl ?_ hr
  intro h c m r _
  cases m with
  | subTotalSupply amount =>
    constructor
    · exact fun hle _ => hle
    · intro hle
      by_cases hzero : amount = 0
      · exact hzero.trans_le (Nat.zero_le _)
      · exact hle hzero
  | deposit scope amount => exact iff_of_true trivial fun hw => absurd rfl hw
  | addTotalSupply amount => exact iff_of_true trivial fun hw => absurd rfl hw

/-- **When the supply agrees with the balances.** Take any run of the five operations from the empty
state whose mints sum below `2 ^ 256`, with the relays delivered in any order. Whenever nothing is
in flight, the total supply is the sum of all balances exactly if every `_subtotalsupply` was
executed when the supply covered its amount. -/
theorem totalSupply_eq_iff [Fintype A] (hr : machine.Run OperationsOnly ⟨empty, 0⟩ h c)
    (hmint : booked minted h < 2 ^ 256) (hq : c.inFlight = 0) :
    c.state.totalSupply = ∑ a, c.state.balance a ↔ machine.Run Covered ⟨empty, 0⟩ h c := by
  rw [← reverted_toSubtract_eq_zero_iff hr, totalSupply_eq_add_reverted hr hmint hq]
  omega

/-! ### Credits that fail -/

/-- Only the five operations are called, and `_deposit` is executed when the balance has room for
its amount. -/
def CreditsFit (_ : History A) (c : Config (State A) (Relay A)) :
    Event (Call A) (Relay A) (Option Bool) Fault → Prop
  | .call k _ => k.isOperation
  | .deliver (.deposit scope amount) _ => c.state.balance scope + amount < 2 ^ 256
  | .deliver _ _ => True

instance (h : History A) (c : Config (State A) (Relay A))
    (e : Event (Call A) (Relay A) (Option Bool) Fault) : Decidable (CreditsFit h c e) :=
  match e with
  | .call k _ => inferInstanceAs (Decidable (k.isOperation = true))
  | .deliver (.deposit scope amount) _ =>
    inferInstanceAs (Decidable (c.state.balance scope + amount < 2 ^ 256))
  | .deliver (.addTotalSupply _) _ | .deliver (.subTotalSupply _) _ => isTrue trivial

/-- Whoever guards the deliveries beside the calls, only the five operations are called. -/
theorem operationsOnly_of_run {G : History A → Config (State A) (Relay A) →
      Event (Call A) (Relay A) (Option Bool) Fault → Prop}
    (hG : ∀ {h c k r}, G h c (.call k r) → k.isOperation) (hr : machine.Run G ⟨empty, 0⟩ h c) :
    machine.Run OperationsOnly ⟨empty, 0⟩ h c := by
  refine hr.mono fun h c e he => ?_
  cases e with
  | call k r => exact hG he
  | deliver m r => trivial

/-- A balance is a `uint256`. -/
theorem balance_lt_of_run {G : History A → Config (State A) (Relay A) →
      Event (Call A) (Relay A) (Option Bool) Fault → Prop}
    (hr : machine.Run G ⟨empty, 0⟩ h c) (a : A) : c.state.balance a < 2 ^ 256 := by
  revert a
  refine hr.invariant (I := fun _ c => InUint256 c.state.balance)
    (fun _ => Nat.two_pow_pos 256) ?_ ?_ ?_ ?_
  · intro h c k eff _ ih _ hk
    cases called_of_ok hk with
    | mint hfit => exact ih.update _ hfit
    | transfer | burn | transferFrom =>
      exact ih.update _ ((Nat.sub_le _ _).trans_lt (ih _))
    | approve => exact ih
    | deposit hd =>
      cases hd with
      | deposit hfit => exact ih.update _ hfit
    | addTotalSupply hd | subTotalSupply hd =>
      cases hd
      exact ih
  · intro h c k f _ ih _ _
    exact ih
  · intro h s m rest eff _ ih _ hk
    cases delivered_of_ok hk with
    | deposit hfit => exact ih.update _ hfit
    | addTotalSupply | subTotalSupply => exact ih
  · intro h s m rest f _ ih _ _
    exact ih

theorem reverted_toBalance_eq_zero_iff (hr : machine.Run OperationsOnly ⟨empty, 0⟩ h c) :
    booked (reverted Relay.toBalance) h = 0 ↔ machine.Run CreditsFit ⟨empty, 0⟩ h c := by
  refine reverted_eq_zero_iff Relay.toBalance Iff.rfl ?_ hr
  intro h c m r hr
  cases m with
  | deposit scope amount =>
    constructor
    · exact fun hfit _ => hfit
    · intro hfit
      by_cases hzero : amount = 0
      · rw [hzero]
        exact balance_lt_of_run hr scope
      · exact hfit hzero
  | addTotalSupply amount => exact iff_of_true trivial fun hw => absurd rfl hw
  | subTotalSupply amount => exact iff_of_true trivial fun hw => absurd rfl hw

/-- **When every debit has its credit.** Take any run of the five operations from the empty state,
with no bound on what is minted and the relays delivered in any order. The balances and the credits
in flight make up what was minted and not burned exactly if every `_deposit` so far was executed
when the balance had room for its amount. -/
theorem credits_matched_iff [Fintype A] (hr : machine.Run OperationsOnly ⟨empty, 0⟩ h c) :
    ∑ a, c.state.balance a + c.carried Relay.toBalance + booked burned h = booked minted h ↔
      machine.Run CreditsFit ⟨empty, 0⟩ h c := by
  rw [← reverted_toBalance_eq_zero_iff hr, ← balances_of_run hr]
  omega

end Runs

/-- Address 0 mints 5, burns 1 and sends 2 to address 1, and the supply hears of the mint first. -/
theorem totalSupply_eq_iff_mintFirst : ∃ h c,
    machine.Run OperationsOnly ⟨empty, 0⟩ h c ∧ booked minted h < 2 ^ 256 ∧ c.inFlight = 0 ∧
      machine.Run Covered ⟨empty, 0⟩ h c ∧
      c.state.totalSupply = ∑ a : Fin 2, c.state.balance a := by
  obtain ⟨⟨h, c⟩, hx, hmint, hq⟩ :
      ∃ r ∈ (machine (A := Fin 2)).exec Covered ⟨empty, 0⟩
        [.call (.mint 0 0 5), .call (.burn 0 0 1), .call (.transfer 0 0 1 2),
          .deliver (.addTotalSupply 5), .deliver (.subTotalSupply 1), .deliver (.deposit 1 2)],
        booked minted r.1 < 2 ^ 256 ∧ r.2.inFlight = 0 := by decide
  have hcovered := Machine.exec_run hx
  have hr := operationsOnly_of_run id hcovered
  exact ⟨h, c, hr, hmint, hq, hcovered, (totalSupply_eq_iff hr hmint hq).mpr hcovered⟩

/-- Address 0 mints 5 and burns 5, and the supply hears of the burn first: the subtraction reverts,
and a supply of 5 is left with no balance behind it. -/
theorem totalSupply_ne_sum : ∃ h c,
    machine.Run OperationsOnly ⟨empty, 0⟩ h c ∧ booked minted h < 2 ^ 256 ∧ c.inFlight = 0 ∧
      c.state.totalSupply = 5 ∧ ∑ a : Fin 2, c.state.balance a = 0 := by
  obtain ⟨⟨h, c⟩, hx, hrest⟩ :
      ∃ r ∈ (machine (A := Fin 2)).exec OperationsOnly ⟨empty, 0⟩
        [.call (.mint 0 0 5), .call (.burn 0 0 5), .deliver (.subTotalSupply 5),
          .deliver (.addTotalSupply 5)],
        booked minted r.1 < 2 ^ 256 ∧ r.2.inFlight = 0 ∧ r.2.state.totalSupply = 5 ∧
          ∑ a : Fin 2, r.2.state.balance a = 0 := by decide
  exact ⟨h, c, Machine.exec_run hx, hrest⟩

/-- Address 0 mints 5 and sends 2 to address 1, whose balance has room for them. -/
theorem credits_matched_iff_room : ∃ h c,
    machine.Run OperationsOnly ⟨empty, 0⟩ h c ∧ machine.Run CreditsFit ⟨empty, 0⟩ h c ∧
      c.state.balance (1 : Fin 2) = 2 ∧
      ∑ a : Fin 2, c.state.balance a + c.carried Relay.toBalance + booked burned h =
        booked minted h := by
  obtain ⟨⟨h, c⟩, hx, hbalance⟩ :
      ∃ r ∈ (machine (A := Fin 2)).exec CreditsFit ⟨empty, 0⟩
        [.call (.mint 0 0 5), .call (.transfer 0 0 1 2), .deliver (.deposit 1 2)],
        r.2.state.balance 1 = 2 := by decide
  have hfit := Machine.exec_run hx
  have hr := operationsOnly_of_run id hfit
  exact ⟨h, c, hr, hfit, hbalance, (credits_matched_iff hr).mpr hfit⟩

/-- Address 0 mints all a `uint256` holds, address 1 mints 5 and sends them to address 0: the credit
reverts, and when every relay has been executed 5 of what was minted is neither held nor burned. -/
theorem credits_not_matched : ∃ h c,
    machine.Run OperationsOnly ⟨empty, 0⟩ h c ∧ c.inFlight = 0 ∧
      ∑ a : Fin 2, c.state.balance a + c.carried Relay.toBalance + booked burned h + 5 =
        booked minted h := by
  obtain ⟨⟨h, c⟩, hx, hrest⟩ :
      ∃ r ∈ (machine (A := Fin 2)).exec OperationsOnly ⟨empty, 0⟩
        [.call (.mint 0 0 (2 ^ 256 - 1)), .call (.mint 1 1 5), .call (.transfer 1 1 0 5),
          .deliver (.deposit 0 5), .deliver (.addTotalSupply (2 ^ 256 - 1)),
          .deliver (.addTotalSupply 5)],
        r.2.inFlight = 0 ∧
          ∑ a : Fin 2, r.2.state.balance a + r.2.carried Relay.toBalance + booked burned r.1 + 5 =
            booked minted r.1 := by decide
  exact ⟨h, c, Machine.exec_run hx, hrest⟩

end Erc20

end Crystality

end RelayContracts
