import RelayContracts.Crystality.Erc20Standard

/-!
# The Sei ERC20 contract

The token contract of `ERC20.sol` among the Sei contracts. It is `ERC20_Standard.sol` without the
event, so its functions are those of that contract, under their names.

Every function checks its arithmetic, but some of the checks can never fail. While only the five
operations are called, the balances sum to the supply, so a credit to a receiver fits and the supply
covers a burn; what makes an operation revert is then a condition on its caller and on what the
caller has (`supply_and_reverts`).

The functions for the supply and for credits are public, and with them the balances and the supply
come apart. But they take nothing away: `spending_authorised` says that a balance falls only by the
hand of its owner or of a spender within an allowance. An allowance is accounted for exactly by what
its spender has moved since it was granted.
-/

namespace RelayContracts

namespace Sei

namespace Erc20

open RelayMachine
open Crystality.Erc20 (State Call empty Call.isOperation)

variable {A : Type}

/-! ### The functions -/

/-- `_addtotalsupply(amount)`. -/
def addTotalSupply (amount : ℕ) : State A → Except Fault (Effect (State A) Empty (Option Bool)) :=
  Crystality.Erc20Standard.addTotalSupply amount

/-- `_subtotalsupply(amount)`. -/
def subTotalSupply (amount : ℕ) : State A → Except Fault (Effect (State A) Empty (Option Bool)) :=
  Crystality.Erc20Standard.subTotalSupply amount

variable [DecidableEq A]

/-- `mint(_scope, amount)`. -/
def mint (msgSender scope : A) (amount : ℕ) :
    State A → Except Fault (Effect (State A) Empty (Option Bool)) :=
  Crystality.Erc20Standard.mint msgSender scope amount

/-- `_deposit(_scope, amount)`. -/
def deposit (scope : A) (amount : ℕ) :
    State A → Except Fault (Effect (State A) Empty (Option Bool)) :=
  Crystality.Erc20Standard.deposit scope amount

/-- `transfer(_scope, recipient, amount)`. -/
def transfer (msgSender scope recipient : A) (amount : ℕ) :
    State A → Except Fault (Effect (State A) Empty (Option Bool)) :=
  Crystality.Erc20Standard.transfer msgSender scope recipient amount

/-- `approve(_scope, spender, amount)`. -/
def approve (msgSender scope spender : A) (amount : ℕ) :
    State A → Except Fault (Effect (State A) Empty (Option Bool)) :=
  Crystality.Erc20Standard.approve msgSender scope spender amount

/-- `transferFrom(_scope, sender, recipient, amount)`. -/
def transferFrom (msgSender scope sender recipient : A) (amount : ℕ) :
    State A → Except Fault (Effect (State A) Empty (Option Bool)) :=
  Crystality.Erc20Standard.transferFrom msgSender scope sender recipient amount

/-- `burn(_scope, amount)`. -/
def burn (msgSender scope : A) (amount : ℕ) :
    State A → Except Fault (Effect (State A) Empty (Option Bool)) :=
  Crystality.Erc20Standard.burn msgSender scope amount

/-- The contract as a machine without relays. -/
def machine : Machine (State A) (Call A) Empty (Option Bool) Fault where
  call
    | .mint msgSender scope amount => mint msgSender scope amount
    | .transfer msgSender scope recipient amount => transfer msgSender scope recipient amount
    | .approve msgSender scope spender amount => approve msgSender scope spender amount
    | .transferFrom msgSender scope sender recipient amount =>
      transferFrom msgSender scope sender recipient amount
    | .burn msgSender scope amount => burn msgSender scope amount
    | .deposit scope amount => deposit scope amount
    | .addTotalSupply amount => addTotalSupply amount
    | .subTotalSupply amount => subTotalSupply amount
  relay m := m.elim

/-! ### What a successful call did -/

/-- The balances after `amount` has gone from `a` to `b`. -/
def moved (f : A → ℕ) (a b : A) (amount : ℕ) : A → ℕ :=
  let debited := Function.update f a (f a - amount)
  Function.update debited b (debited b + amount)

/-- There is room at `b` for `amount` from `a`. -/
def Room (f : A → ℕ) (a b : A) (amount : ℕ) : Prop :=
  Function.update f a (f a - amount) b + amount < 2 ^ 256

/-- What a successful call did, at a state `s`. -/
inductive Called (s : State A) : Call A → Effect (State A) Empty (Option Bool) → Prop
  /-- `mint` credited its caller and the supply. -/
  | mint {a : A} {amount : ℕ} (hfit : s.balance a + amount < 2 ^ 256)
      (hsupply : s.totalSupply + amount < 2 ^ 256) :
      Called s (.mint a a amount) ⟨{ s with
        balance := Function.update s.balance a (s.balance a + amount)
        totalSupply := s.totalSupply + amount }, none, []⟩
  /-- `transfer` moved something from its caller. -/
  | transfer {a recipient : A} {amount : ℕ} (hle : amount ≤ s.balance a)
      (hroom : Room s.balance a recipient amount) :
      Called s (.transfer a a recipient amount)
        ⟨{ s with balance := moved s.balance a recipient amount }, some true, []⟩
  /-- `approve` set an allowance. -/
  | approve {a spender : A} {amount : ℕ} :
      Called s (.approve a a spender amount) ⟨{ s with
        allowance := Function.update s.allowance a
          (Function.update (s.allowance a) spender amount) }, some true, []⟩
  /-- `transferFrom` used up an allowance and moved something from the sender. -/
  | transferFrom {p a recipient : A} {amount : ℕ} (hallowed : amount ≤ s.allowance a p)
      (hle : amount ≤ s.balance a) (hroom : Room s.balance a recipient amount) :
      Called s (.transferFrom p a a recipient amount) ⟨{ s with
        allowance := Function.update s.allowance a
          (Function.update (s.allowance a) p (s.allowance a p - amount))
        balance := moved s.balance a recipient amount }, some true, []⟩
  /-- `burn` debited its caller and the supply. -/
  | burn {a : A} {amount : ℕ} (hle : amount ≤ s.balance a) (hsupply : amount ≤ s.totalSupply) :
      Called s (.burn a a amount) ⟨{ s with
        balance := Function.update s.balance a (s.balance a - amount)
        totalSupply := s.totalSupply - amount }, none, []⟩
  /-- `_deposit` credited its scope. -/
  | deposit {scope : A} {amount : ℕ} (hfit : s.balance scope + amount < 2 ^ 256) :
      Called s (.deposit scope amount) ⟨{ s with
        balance := Function.update s.balance scope (s.balance scope + amount) }, none, []⟩
  /-- `_addtotalsupply` raised the supply. -/
  | addTotalSupply {amount : ℕ} (hfit : s.totalSupply + amount < 2 ^ 256) :
      Called s (.addTotalSupply amount)
        ⟨{ s with totalSupply := s.totalSupply + amount }, none, []⟩
  /-- `_subtotalsupply` lowered the supply. -/
  | subTotalSupply {amount : ℕ} (hle : amount ≤ s.totalSupply) :
      Called s (.subTotalSupply amount)
        ⟨{ s with totalSupply := s.totalSupply - amount }, none, []⟩

variable {s : State A} {k : Call A} {eff : Effect (State A) Empty (Option Bool)}

theorem called_of_ok (h : machine.call k s = .ok eff) : Called s k eff := by
  cases k with
  | mint p a amount =>
    obtain ⟨rfl, h⟩ := of_require_eq_ok (show Crystality.Erc20Standard.mint p a amount s = _ from h)
    obtain ⟨v, hv, h⟩ := exists_of_bind_eq_ok h
    obtain ⟨t, ht, h⟩ := exists_of_bind_eq_ok h
    obtain ⟨hfit, rfl⟩ := addU_trap_eq_ok.mp hv
    obtain ⟨hsupply, rfl⟩ := addU_trap_eq_ok.mp ht
    cases h
    exact .mint hfit hsupply
  | transfer p a recipient amount =>
    obtain ⟨rfl, h⟩ := of_require_eq_ok
      (show Crystality.Erc20Standard.transfer p a recipient amount s = _ from h)
    obtain ⟨v, hv, h⟩ := exists_of_bind_eq_ok h
    obtain ⟨hle, rfl⟩ := subU_eq_ok.mp hv
    obtain ⟨w, hw, h⟩ := exists_of_bind_eq_ok h
    obtain ⟨hroom, rfl⟩ := addU_trap_eq_ok.mp hw
    cases h
    exact .transfer hle hroom
  | approve p a spender amount =>
    obtain ⟨rfl, h⟩ := of_require_eq_ok
      (show Crystality.Erc20Standard.approve p a spender amount s = _ from h)
    cases h
    exact .approve
  | transferFrom p a sender recipient amount =>
    obtain ⟨rfl, h⟩ := of_require_eq_ok
      (show Crystality.Erc20Standard.transferFrom p a sender recipient amount s = _ from h)
    obtain ⟨allowed, hp, h⟩ := exists_of_bind_eq_ok h
    obtain ⟨hallowed, rfl⟩ := subU_eq_ok.mp hp
    obtain ⟨v, hv, h⟩ := exists_of_bind_eq_ok h
    obtain ⟨hle, rfl⟩ := subU_eq_ok.mp hv
    obtain ⟨w, hw, h⟩ := exists_of_bind_eq_ok h
    obtain ⟨hroom, rfl⟩ := addU_trap_eq_ok.mp hw
    cases h
    exact .transferFrom hallowed hle hroom
  | burn p a amount =>
    obtain ⟨rfl, h⟩ := of_require_eq_ok (show Crystality.Erc20Standard.burn p a amount s = _ from h)
    obtain ⟨v, hv, h⟩ := exists_of_bind_eq_ok h
    obtain ⟨t, ht, h⟩ := exists_of_bind_eq_ok h
    obtain ⟨hle, rfl⟩ := subU_eq_ok.mp hv
    obtain ⟨hsupply, rfl⟩ := subU_eq_ok.mp ht
    cases h
    exact .burn hle hsupply
  | deposit scope amount =>
    obtain ⟨v, hv, h⟩ := exists_of_bind_eq_ok
      (show Crystality.Erc20Standard.deposit scope amount s = _ from h)
    obtain ⟨hfit, rfl⟩ := addU_trap_eq_ok.mp hv
    cases h
    exact .deposit hfit
  | addTotalSupply amount =>
    obtain ⟨t, ht, h⟩ := exists_of_bind_eq_ok
      (show Crystality.Erc20Standard.addTotalSupply amount s = _ from h)
    obtain ⟨hfit, rfl⟩ := addU_trap_eq_ok.mp ht
    cases h
    exact .addTotalSupply hfit
  | subTotalSupply amount =>
    obtain ⟨t, ht, h⟩ := exists_of_bind_eq_ok
      (show Crystality.Erc20Standard.subTotalSupply amount s = _ from h)
    obtain ⟨hle, rfl⟩ := subU_eq_ok.mp ht
    cases h
    exact .subTotalSupply hle

/-- What the contract can do, it does. -/
theorem Called.ok (hc : Called s k eff) : machine.call k s = .ok eff := by
  cases hc with
  | mint hfit hsupply =>
    simp [machine, Erc20.mint, Crystality.Erc20Standard.mint, addU_of_lt hfit, addU_of_lt hsupply]
  | transfer hle hroom =>
    simp [machine, Erc20.transfer, Crystality.Erc20Standard.transfer, subU_of_le hle,
      addU_of_lt hroom, moved]
  | approve => simp [machine, Erc20.approve, Crystality.Erc20Standard.approve]
  | transferFrom hallowed hle hroom =>
    simp [machine, Erc20.transferFrom, Crystality.Erc20Standard.transferFrom, subU_of_le hallowed,
      subU_of_le hle, addU_of_lt hroom, moved]
  | burn hle hsupply =>
    simp [machine, Erc20.burn, Crystality.Erc20Standard.burn, subU_of_le hle, subU_of_le hsupply]
  | deposit hfit => simp [machine, Erc20.deposit, Crystality.Erc20Standard.deposit, addU_of_lt hfit]
  | addTotalSupply hfit =>
    simp [machine, Erc20.addTotalSupply, Crystality.Erc20Standard.addTotalSupply, addU_of_lt hfit]
  | subTotalSupply hle =>
    simp [machine, Erc20.subTotalSupply, Crystality.Erc20Standard.subTotalSupply, subU_of_le hle]

/-! ### Moving between balances -/

section Moving

variable {f : A → ℕ} {a : A} {amount : ℕ}

theorem moved_add (hle : amount ≤ f a) (b c : A) :
    moved f a b amount c + (if c = a then amount else 0) =
      f c + if c = b then amount else 0 := by
  have hdebit := update_debit f (Nat.sub_add_cancel hle) c
  have hcredit := update_credit (Function.update f a (f a - amount)) b amount c
  rw [moved]
  omega

theorem sum_moved [Fintype A] (hle : amount ≤ f a) (b : A) :
    ∑ c, moved f a b amount c = ∑ c, f c := by
  rw [moved, sum_update_credit, sum_update_debit f (Nat.sub_add_cancel hle)]

/-- What an account has fits where it goes, if all accounts together fit. -/
theorem room_of_le [Fintype A] (hsum : ∑ c, f c < 2 ^ 256) (hle : amount ≤ f a) (b : A) :
    Room f a b amount := by
  have hone : Function.update f a (f a - amount) b ≤ ∑ c, Function.update f a (f a - amount) c :=
    Finset.single_le_sum (fun _ _ => Nat.zero_le _) (Finset.mem_univ b)
  have hdebit := sum_update_debit f (Nat.sub_add_cancel hle)
  rw [Room]
  omega

end Moving

/-! ### Supply and reverts -/

/-- The events of a run of the contract, latest first. -/
abbrev History (A : Type) := List (Event (Call A) Empty (Option Bool) Fault)

variable {h : History A} {c c' : Config (State A) Empty}
  {e : Event (Call A) Empty (Option Bool) Fault}

/-- A call reverts. -/
def Reverts (k : Call A) (s : State A) : Prop := ∃ f, machine.call k s = .error f

theorem reverts_iff : Reverts k s ↔ ∀ eff, ¬ Called s k eff := by
  constructor
  · rintro ⟨f, hf⟩ eff hc
    cases hf.symm.trans hc.ok
  · intro hnot
    cases hk : machine.call k s with
    | ok eff => exact absurd (called_of_ok hk) (hnot eff)
    | error f => exact ⟨f, hk⟩

/-- The balances sum to the supply, and the supply is a `uint`. -/
def Balanced [Fintype A] (s : State A) : Prop :=
  ∑ a, s.balance a = s.totalSupply ∧ s.totalSupply < 2 ^ 256

/-- **An operation keeps the books.** -/
theorem Called.balanced [Fintype A] (hc : Called s k eff) (hop : k.isOperation)
    (hs : Balanced s) : Balanced eff.state := by
  obtain ⟨hsum, hlt⟩ := hs
  cases hc with
  | mint hfit hsupply => exact ⟨by rw [sum_update_credit, hsum], hsupply⟩
  | transfer hle hroom => exact ⟨by rw [sum_moved hle, hsum], hlt⟩
  | approve => exact ⟨hsum, hlt⟩
  | transferFrom hallowed hle hroom => exact ⟨by rw [sum_moved hle, hsum], hlt⟩
  | @burn a amount hle hsupply =>
    have hdebit := sum_update_debit s.balance (Nat.sub_add_cancel hle)
    constructor
    · dsimp only
      omega
    · exact (Nat.sub_le _ _).trans_lt hlt
  | deposit | addTotalSupply | subTotalSupply => cases hop

theorem balanced_of_run [Fintype A] (hr : machine.Run Anything ⟨empty, 0⟩ h c)
    (hops : ∀ k ∈ calls h, k.isOperation) : Balanced c.state := by
  revert hops
  refine hr.call_invariant (I := fun h c => (∀ k ∈ calls h, k.isOperation) → Balanced c.state)
    (fun _ => ⟨Finset.sum_const_zero, Nat.two_pow_pos 256⟩) ?_ ?_
  · intro h c k eff _ ih _ hk hops
    rw [calls_cons_call, List.forall_mem_cons] at hops
    exact (called_of_ok hk).balanced hops.1 (ih hops.2)
  · intro h c k f _ ih _ _ hops
    rw [calls_cons_call, List.forall_mem_cons] at hops
    exact ih hops.2

section Reverts

variable [Fintype A] {p a sender recipient : A} {amount : ℕ}

theorem transfer_reverts_iff (hs : Balanced s) :
    Reverts (.transfer p a recipient amount) s ↔ p ≠ a ∨ s.balance a < amount := by
  rw [reverts_iff]
  constructor
  · intro hnot
    by_contra hcan
    obtain ⟨rfl, hle⟩ : p = a ∧ amount ≤ s.balance a := by simpa using hcan
    exact hnot _ (.transfer hle (room_of_le (hs.1 ▸ hs.2) hle recipient))
  · rintro hcannot eff hc
    cases hc with
    | transfer hle hroom => exact hcannot.elim (fun h => h rfl) (Nat.not_lt_of_le hle)

theorem transferFrom_reverts_iff (hs : Balanced s) :
    Reverts (.transferFrom p a sender recipient amount) s ↔
      sender ≠ a ∨ s.allowance a p < amount ∨ s.balance a < amount := by
  rw [reverts_iff]
  constructor
  · intro hnot
    by_contra hcan
    obtain ⟨rfl, hallowed, hle⟩ : sender = a ∧ amount ≤ s.allowance a p ∧
      amount ≤ s.balance a := by simpa using hcan
    exact hnot _ (.transferFrom hallowed hle (room_of_le (hs.1 ▸ hs.2) hle recipient))
  · rintro hcannot eff hc
    cases hc with
    | transferFrom hallowed hle hroom =>
      rcases hcannot with h | h | h
      · exact h rfl
      · exact Nat.not_lt_of_le hallowed h
      · exact Nat.not_lt_of_le hle h

theorem burn_reverts_iff (hs : Balanced s) :
    Reverts (.burn p a amount) s ↔ p ≠ a ∨ s.balance a < amount := by
  rw [reverts_iff]
  constructor
  · intro hnot
    by_contra hcan
    obtain ⟨rfl, hle⟩ : p = a ∧ amount ≤ s.balance a := by simpa using hcan
    have hone : s.balance p ≤ ∑ b, s.balance b :=
      Finset.single_le_sum (fun _ _ => Nat.zero_le _) (Finset.mem_univ p)
    exact hnot _ (.burn hle ((hle.trans hone).trans hs.1.le))
  · rintro hcannot eff hc
    cases hc with
    | burn hle hsupply => exact hcannot.elim (fun h => h rfl) (Nat.not_lt_of_le hle)

theorem mint_reverts_iff (hs : Balanced s) :
    Reverts (.mint p a amount) s ↔ p ≠ a ∨ 2 ^ 256 ≤ s.totalSupply + amount := by
  rw [reverts_iff]
  constructor
  · intro hnot
    by_contra hcan
    obtain ⟨rfl, hsupply⟩ : p = a ∧ s.totalSupply + amount < 2 ^ 256 := by
      simpa only [ne_eq, not_or, not_not, Nat.not_le] using hcan
    have hone : s.balance p ≤ ∑ b, s.balance b :=
      Finset.single_le_sum (fun _ _ => Nat.zero_le _) (Finset.mem_univ p)
    have hsum := hs.1
    exact hnot _ (.mint (by omega) hsupply)
  · rintro hcannot eff hc
    cases hc with
    | mint hfit hsupply => exact hcannot.elim (fun h => h rfl) (Nat.not_le_of_lt hsupply)

end Reverts

/-- **Supply and reverts.** After any sequence of the five operations from the empty state the
balances sum to the supply, which is below `2 ^ 256`; what makes an operation revert is its caller,
its amount, or for a `mint` the range of the supply; and a call that reverts changes nothing. -/
theorem supply_and_reverts [Fintype A] (hr : machine.Run Anything ⟨empty, 0⟩ h c)
    (hops : ∀ k ∈ calls h, k.isOperation) :
    ∑ a, c.state.balance a = c.state.totalSupply ∧ c.state.totalSupply ≤ 2 ^ 256 - 1 ∧
    (∀ p a recipient amount, Reverts (.transfer p a recipient amount) c.state ↔
      p ≠ a ∨ amount > c.state.balance a) ∧
    (∀ p a amount, Reverts (.burn p a amount) c.state ↔ p ≠ a ∨ amount > c.state.balance a) ∧
    (∀ p a sender recipient amount,
      Reverts (.transferFrom p a sender recipient amount) c.state ↔
        sender ≠ a ∨ amount > c.state.allowance a p ∨ amount > c.state.balance a) ∧
    (∀ p a amount, Reverts (.mint p a amount) c.state ↔
      p ≠ a ∨ c.state.totalSupply + amount ≥ 2 ^ 256) ∧
    ∀ k f c', machine.Step c (.call k (.error f)) c' → c' = c := by
  have hs := balanced_of_run hr hops
  refine ⟨hs.1, Nat.le_sub_one_of_lt hs.2, fun p a recipient amount => transfer_reverts_iff hs,
    fun p a amount => burn_reverts_iff hs,
    fun p a sender recipient amount => transferFrom_reverts_iff hs,
    fun p a amount => mint_reverts_iff hs, fun k f c' hst => ?_⟩
  cases hst with
  | callError hk => rfl

/-- Address 0 mints 5 and lets address 1 have 3 of them, of which it takes 2: it can take one more
and not two. -/
theorem supply_and_reverts_allowance : ∃ (h : History (Fin 2)) (c : Config (State (Fin 2)) Empty),
    machine.Run Anything ⟨empty, 0⟩ h c ∧
      calls h = [.transferFrom 1 0 0 1 2, .approve 0 0 1 3, .mint 0 0 5] ∧
      c.state.totalSupply = 5 ∧ ¬ Reverts (.transferFrom 1 0 0 1 1) c.state ∧
      Reverts (.transferFrom 1 0 0 1 2) c.state := by
  obtain ⟨⟨h, c⟩, hx, hcalls, hsupply, hallowance, hbalance⟩ :
      ∃ r ∈ machine.exec Anything ⟨(empty : State (Fin 2)), 0⟩
        [.call (.mint 0 0 5), .call (.approve 0 0 1 3), .call (.transferFrom 1 0 0 1 2)],
        calls r.1 = [.transferFrom 1 0 0 1 2, .approve 0 0 1 3, .mint 0 0 5] ∧
          r.2.state.totalSupply = 5 ∧ r.2.state.allowance 0 1 = 1 ∧
          r.2.state.balance 0 = 3 := by decide
  have hr := Machine.exec_run hx
  obtain ⟨-, -, -, -, hfrom, -⟩ := supply_and_reverts hr (by rw [hcalls]; decide)
  refine ⟨h, c, hr, hcalls, hsupply, ?_, ?_⟩
  · rw [hfrom, hallowance, hbalance]
    decide
  · rw [hfrom, hallowance, hbalance]
    decide

/-! ### Spending -/

/-- What an event takes out of the balance of `a`. -/
def takenOut (a : A) : Event (Call A) Empty (Option Bool) Fault → ℕ
  | .call (.transfer msgSender _ _ amount) (.ok _) => if a = msgSender then amount else 0
  | .call (.transferFrom _ _ sender _ amount) (.ok _) => if a = sender then amount else 0
  | .call (.burn msgSender _ amount) (.ok _) => if a = msgSender then amount else 0
  | _ => 0

/-- What an event puts into the balance of `a`. -/
def putIn (a : A) : Event (Call A) Empty (Option Bool) Fault → ℕ
  | .call (.mint msgSender _ amount) (.ok _) => if a = msgSender then amount else 0
  | .call (.transfer _ _ recipient amount) (.ok _) => if a = recipient then amount else 0
  | .call (.transferFrom _ _ _ recipient amount) (.ok _) => if a = recipient then amount else 0
  | .call (.deposit scope amount) (.ok _) => if a = scope then amount else 0
  | _ => 0

/-- **A balance changes by what an event takes out and puts in,** and there is enough to take. -/
theorem balance_of_step (hs : machine.Step c e c') (a : A) :
    takenOut a e ≤ c.state.balance a ∧
      c'.state.balance a + takenOut a e = c.state.balance a + putIn a e := by
  have htaken : ∀ {b : A} {amount : ℕ}, amount ≤ c.state.balance b →
      (if a = b then amount else 0) ≤ c.state.balance a := by
    intro b amount hle
    by_cases hab : a = b
    · rwa [if_pos hab, hab]
    · exact (if_neg hab).trans_le (Nat.zero_le _)
  cases hs with
  | @callError k f hk =>
    have hnone : takenOut a (.call k (.error f)) = 0 ∧ putIn a (.call k (.error f)) = 0 := by
      cases k <;> exact ⟨rfl, rfl⟩
    omega
  | @deliverOk m => exact m.elim
  | @deliverError m => exact m.elim
  | callOk hk =>
    cases called_of_ok hk with
    | mint hfit hsupply => exact ⟨Nat.zero_le _, update_credit _ _ _ a⟩
    | transfer hle hroom => exact ⟨htaken hle, moved_add hle _ a⟩
    | approve => exact ⟨Nat.zero_le _, rfl⟩
    | transferFrom hallowed hle hroom => exact ⟨htaken hle, moved_add hle _ a⟩
    | burn hle hsupply => exact ⟨htaken hle, update_debit _ (Nat.sub_add_cancel hle) a⟩
    | deposit hfit => exact ⟨Nat.zero_le _, update_credit _ _ _ a⟩
    | addTotalSupply hfit => exact ⟨Nat.zero_le _, rfl⟩
    | subTotalSupply hle => exact ⟨Nat.zero_le _, rfl⟩

/-- A successful call that may lower the balance of `a`. -/
inductive Spends (a : A) : Event (Call A) Empty (Option Bool) Fault → Prop
  /-- A `transfer` by `a`. -/
  | transfer (scope recipient : A) (amount : ℕ) (v : Option Bool) :
      Spends a (.call (.transfer a scope recipient amount) (.ok v))
  /-- A `burn` by `a`. -/
  | burn (scope : A) (amount : ℕ) (v : Option Bool) :
      Spends a (.call (.burn a scope amount) (.ok v))
  /-- A `transferFrom` with `a` as the sender. -/
  | transferFrom (p scope recipient : A) (amount : ℕ) (v : Option Bool) :
      Spends a (.call (.transferFrom p scope a recipient amount) (.ok v))

theorem spends_of_takenOut {a : A} (hpos : takenOut a e ≠ 0) : Spends a e := by
  obtain ⟨k, r⟩ | ⟨m, -⟩ := e
  · cases r with
    | error f => cases k <;> exact absurd rfl hpos
    | ok v =>
      cases k with
      | transfer msgSender scope recipient amount =>
        obtain ⟨rfl, -⟩ := ite_ne_right_iff.mp hpos
        exact .transfer _ _ _ _
      | transferFrom msgSender scope sender recipient amount =>
        obtain ⟨rfl, -⟩ := ite_ne_right_iff.mp hpos
        exact .transferFrom _ _ _ _ _
      | burn msgSender scope amount =>
        obtain ⟨rfl, -⟩ := ite_ne_right_iff.mp hpos
        exact .burn _ _ _
      | _ => exact absurd rfl hpos
  · exact m.elim

/-- **A balance falls only by the hand of its owner or of a spender.** -/
theorem spends_of_lt (hs : machine.Step c e c') {a : A}
    (hlt : c'.state.balance a < c.state.balance a) : Spends a e := by
  have hbalance := (balance_of_step hs a).2
  exact spends_of_takenOut (by omega)

/-- What `a` has last approved for `p`, if anything. -/
def approved (a p : A) : History A → ℕ
  | [] => 0
  | .call (.approve msgSender _ spender amount) (.ok _) :: h =>
    if msgSender = a ∧ spender = p then amount else approved a p h
  | _ :: h => approved a p h

/-- What `p` has moved out of `a` by `transferFrom` since `a` last approved something for `p`, or
since the deployment. -/
def spent (a p : A) : History A → ℕ
  | [] => 0
  | .call (.approve msgSender _ spender _) (.ok _) :: h =>
    if msgSender = a ∧ spender = p then 0 else spent a p h
  | .call (.transferFrom msgSender scope sender recipient amount) (.ok v) :: h =>
    (if msgSender = p then
      takenOut a (.call (.transferFrom msgSender scope sender recipient amount) (.ok v))
    else 0) + spent a p h
  | _ :: h => spent a p h

/-- **The account of an allowance.** -/
theorem allowance_of_run (hr : machine.Run Anything ⟨empty, 0⟩ h c) (a p : A) :
    spent a p h + c.state.allowance a p = approved a p h := by
  refine hr.call_invariant (I := fun h c => spent a p h + c.state.allowance a p = approved a p h)
    rfl ?_ ?_
  · intro h c k eff _ ih _ hk
    cases called_of_ok hk with
    | @approve b spender amount =>
      simp only [spent, approved, update_update_apply]
      by_cases hap : b = a ∧ spender = p
      · simp only [if_pos hap, Nat.zero_add]
      · simp only [if_neg hap, ih]
    | @transferFrom q b recipient amount hallowed hle hroom =>
      simp only [spent, takenOut, approved, update_update_apply]
      by_cases hap : b = a ∧ q = p
      · rw [if_pos hap, if_pos hap.2, if_pos hap.1.symm]
        obtain ⟨rfl, rfl⟩ := hap
        omega
      · have hnone : (if q = p then if a = b then amount else 0 else 0) = 0 := by
          rw [← ite_and]
          exact if_neg fun h => hap ⟨h.2.symm, h.1⟩
        rw [if_neg hap, hnone, Nat.zero_add, ih]
    | _ => exact ih
  · intro h c k f _ ih _ _
    cases k <;> exact ih

/-- **Spending is authorised and bounded by allowances.** At any point of any run of the public
functions, a step changes each balance by exactly what its event takes out and puts in: the amount
of a successful `transfer`, `transferFrom` or `burn` is taken out of the one who sends it, and never
more than there is. So a step that lowers the balance of `a` is a successful `transfer` or `burn` by
`a` or a successful `transferFrom` with `a` as the sender. What `p` has moved out of `a` by
`transferFrom` since `a` last approved something for `p` is what was approved less what is left of
the allowance. -/
theorem spending_authorised (hr : machine.Run Anything ⟨empty, 0⟩ h c) :
    (∀ e c', machine.Step c e c' → ∀ a,
      takenOut a e ≤ c.state.balance a ∧
      c'.state.balance a + takenOut a e = c.state.balance a + putIn a e ∧
      (c'.state.balance a < c.state.balance a → Spends a e)) ∧
    ∀ a p, c.state.allowance a p ≤ approved a p h ∧
      spent a p h = approved a p h - c.state.allowance a p ∧ spent a p h ≤ approved a p h := by
  constructor
  · intro e c' hs a
    obtain ⟨hle, hbalance⟩ := balance_of_step hs a
    exact ⟨hle, hbalance, fun hlt => spends_of_lt hs hlt⟩
  · intro a p
    have hallowance := allowance_of_run hr a p
    omega

/-- Address 0 approves 3 for address 1, which takes 2, and then approves 4 and address 1 takes
1. -/
theorem spending_authorised_again : ∃ (h : History (Fin 2)) (c : Config (State (Fin 2)) Empty),
    machine.Run Anything ⟨empty, 0⟩ h c ∧
      calls h = [.transferFrom 1 0 0 1 1, .approve 0 0 1 4, .transferFrom 1 0 0 1 2,
        .approve 0 0 1 3, .mint 0 0 5] ∧
      approved 0 1 h = 4 ∧ c.state.allowance 0 1 = 3 ∧ spent 0 1 h = 1 := by
  obtain ⟨⟨h, c⟩, hx, hcalls, happroved, hallowance⟩ :
      ∃ r ∈ machine.exec Anything ⟨(empty : State (Fin 2)), 0⟩
        [.call (.mint 0 0 5), .call (.approve 0 0 1 3), .call (.transferFrom 1 0 0 1 2),
          .call (.approve 0 0 1 4), .call (.transferFrom 1 0 0 1 1)],
        calls r.1 = [.transferFrom 1 0 0 1 1, .approve 0 0 1 4, .transferFrom 1 0 0 1 2,
          .approve 0 0 1 3, .mint 0 0 5] ∧
          approved 0 1 r.1 = 4 ∧ r.2.state.allowance 0 1 = 3 := by decide
  have hr := Machine.exec_run hx
  obtain ⟨-, hspent, -⟩ := (spending_authorised hr).2 0 1
  refine ⟨h, c, hr, hcalls, happroved, hallowance, ?_⟩
  rw [hspent, happroved, hallowance]

end Erc20

end Sei

end RelayContracts
