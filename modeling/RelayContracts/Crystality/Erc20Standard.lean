import RelayContracts.Crystality.Erc20
import RelayContracts.Synchronous

/-!
# The Crystality ERC20 contract and its synchronous original

`ERC20_Standard.sol` is the token contract before it was split into relays: the state is the same,
and a credit or a change of the supply is made within the call, so that a call fails as a whole.

Call by call the two do the same work: `standard_eq_settled` says that a call of the original is
the relay contract's call followed at once by its relays. What separates them is a relay that
fails, since in the original it takes the call with it. `eager_agrees_with_standard` shows that no
relay fails as long as each call waits for the relays of the one before and the mints stay below
`2 ^ 256`. What rules it out is the original's invariant that the balances sum to the supply.
-/

namespace RelayContracts

namespace Crystality

namespace Erc20Standard

open RelayMachine Erc20

variable {A : Type}

/-! ### The functions -/

/-- `_addtotalsupply(amount)`. -/
def addTotalSupply (amount : ℕ) (s : State A) :
    Except Fault (Effect (State A) Empty (Option Bool)) := do
  let totalSupply ← addU .trap 256 s.totalSupply amount
  .ok ⟨{ s with totalSupply }, none, []⟩

/-- `_subtotalsupply(amount)`. -/
def subTotalSupply (amount : ℕ) (s : State A) :
    Except Fault (Effect (State A) Empty (Option Bool)) := do
  let totalSupply ← subU s.totalSupply amount
  .ok ⟨{ s with totalSupply }, none, []⟩

variable [DecidableEq A]

/-- `mint(_scope, amount)`. -/
def mint (msgSender scope : A) (amount : ℕ) (s : State A) :
    Except Fault (Effect (State A) Empty (Option Bool)) :=
  if msgSender = scope then do
    let v ← addU .trap 256 (s.balance scope) amount
    let totalSupply ← addU .trap 256 s.totalSupply amount
    .ok ⟨{ s with balance := Function.update s.balance scope v, totalSupply }, none, []⟩
  else .error .assertion

/-- `_deposit(_scope, amount)`. -/
def deposit (scope : A) (amount : ℕ) (s : State A) :
    Except Fault (Effect (State A) Empty (Option Bool)) := do
  let v ← addU .trap 256 (s.balance scope) amount
  .ok ⟨{ s with balance := Function.update s.balance scope v }, none, []⟩

/-- `transfer(_scope, recipient, amount)`. -/
def transfer (msgSender scope recipient : A) (amount : ℕ) (s : State A) :
    Except Fault (Effect (State A) Empty (Option Bool)) :=
  if msgSender = scope then do
    let v ← subU (s.balance scope) amount
    let debited := Function.update s.balance scope v
    let w ← addU .trap 256 (debited recipient) amount
    .ok ⟨{ s with balance := Function.update debited recipient w }, some true, []⟩
  else .error .assertion

/-- `approve(_scope, spender, amount)`. -/
def approve (msgSender scope spender : A) (amount : ℕ) (s : State A) :
    Except Fault (Effect (State A) Empty (Option Bool)) :=
  if msgSender = scope then
    .ok ⟨{ s with
      allowance := Function.update s.allowance scope
        (Function.update (s.allowance scope) spender amount) }, some true, []⟩
  else .error .assertion

/-- `transferFrom(_scope, sender, recipient, amount)`. -/
def transferFrom (msgSender scope sender recipient : A) (amount : ℕ) (s : State A) :
    Except Fault (Effect (State A) Empty (Option Bool)) :=
  if sender = scope then do
    let allowed ← subU (s.allowance scope msgSender) amount
    let v ← subU (s.balance scope) amount
    let debited := Function.update s.balance scope v
    let w ← addU .trap 256 (debited recipient) amount
    .ok ⟨{ s with
      allowance := Function.update s.allowance scope
        (Function.update (s.allowance scope) msgSender allowed)
      balance := Function.update debited recipient w }, some true, []⟩
  else .error .assertion

/-- `burn(_scope, amount)`. -/
def burn (msgSender scope : A) (amount : ℕ) (s : State A) :
    Except Fault (Effect (State A) Empty (Option Bool)) :=
  if msgSender = scope then do
    let v ← subU (s.balance scope) amount
    let totalSupply ← subU s.totalSupply amount
    .ok ⟨{ s with balance := Function.update s.balance scope v, totalSupply }, none, []⟩
  else .error .assertion

/-- The contract as a machine without relays. Its functions are those of the relay contract. -/
def machine : Machine (State A) (Call A) Empty (Option Bool) Fault where
  call
    | .mint msgSender scope amount => mint msgSender scope amount
    | .transfer msgSender scope recipient amount => transfer msgSender scope recipient amount
    | .approve msgSender scope spender amount => approve msgSender scope spender amount
    | .transferFrom msgSender scope sender recipient amount =>
      transferFrom msgSender scope sender recipient amount
    | .burn msgSender scope amount => burn msgSender scope amount
    | .deposit scope amount => deposit scope amount
    | .addTotalSupply amount => addTotalSupply amount
    | .subTotalSupply amount => subTotalSupply amount
  relay m := m.elim

/-! ### A call and its relays at once -/

/-- Execute relays one after the other. -/
def settle (ms : List (Relay A)) (s : State A) : Except Fault (State A) :=
  ms.foldlM (fun s m => do let eff ← Erc20.machine.relay m s; .ok eff.state) s

@[simp] theorem settle_nil (s : State A) : settle [] s = .ok s := rfl

@[simp] theorem settle_cons (m : Relay A) (ms : List (Relay A)) (s : State A) :
    settle (m :: ms) s = (do let eff ← Erc20.machine.relay m s; settle ms eff.state) := by
  rw [settle, List.foldlM_cons]
  cases Erc20.machine.relay m s <;> rfl

/-- **The original is the relay contract without the wait.** -/
theorem standard_eq_settled (k : Call A) (s : State A) :
    machine.call k s = (do
      let eff ← Erc20.machine.call k s
      let s' ← settle eff.relays eff.state
      .ok ⟨s', eff.value, []⟩) := by
  cases k with
  | mint p a amount =>
    simp only [machine, mint, Erc20.machine, Erc20.mint]
    split
    · simp [Erc20.machine, Erc20.addTotalSupply]
    · rfl
  | transfer p a recipient amount =>
    simp only [machine, transfer, Erc20.machine, Erc20.transfer]
    split
    · simp [Erc20.machine, Erc20.deposit]
    · rfl
  | transferFrom p a sender recipient amount =>
    simp only [machine, transferFrom, Erc20.machine, Erc20.transferFrom]
    split
    · simp [Erc20.machine, Erc20.deposit]
    · rfl
  | burn p a amount =>
    simp only [machine, burn, Erc20.machine, Erc20.burn]
    split
    · simp [Erc20.machine, Erc20.subTotalSupply]
    · rfl
  | approve p a spender amount =>
    simp only [machine, approve, Erc20.machine, Erc20.approve]
    split <;> rfl
  | deposit scope amount => simp [machine, deposit, Erc20.machine, Erc20.deposit]
  | addTotalSupply amount => simp [machine, addTotalSupply, Erc20.machine, Erc20.addTotalSupply]
  | subTotalSupply amount => simp [machine, subTotalSupply, Erc20.machine, Erc20.subTotalSupply]

/-! ### Relays that cannot fail -/

/-- What a call asks to be minted. -/
def mintRequest : Call A → ℕ
  | .mint _ _ amount => amount
  | _ => 0

section Books

variable [Fintype A] {s : State A} {k : Call A} {eff : Effect (State A) (Relay A) (Option Bool)}

/-- While the balances sum to the supply and a mint fits into it, an operation emits at most one
relay, and that relay is in range. -/
theorem relays_of_called (hc : Called s k eff) (hop : k.isOperation)
    (hsum : ∑ a, s.balance a = s.totalSupply) (hfit : s.totalSupply + mintRequest k < 2 ^ 256) :
    eff.relays = [] ∨ ∃ m : Relay A, eff.relays = [m] ∧ m.InRange eff.state := by
  have hle : ∀ (f : A → ℕ) (a : A), f a ≤ ∑ a, f a := fun f a =>
    Finset.single_le_sum (fun _ _ => Nat.zero_le _) (Finset.mem_univ a)
  have hcredit : ∀ {a recipient amount}, amount ≤ s.balance a →
      Function.update s.balance a (s.balance a - amount) recipient + amount ≤ s.totalSupply := by
    intro a recipient amount hamount
    have hdebit := sum_update_debit s.balance (Nat.sub_add_cancel hamount)
    have hone := hle (Function.update s.balance a (s.balance a - amount)) recipient
    omega
  cases hc with
  | mint => exact .inr ⟨_, rfl, hfit⟩
  | transfer hamount => exact .inr ⟨_, rfl, (hcredit hamount).trans_lt hfit⟩
  | transferFrom hallowed hamount => exact .inr ⟨_, rfl, (hcredit hamount).trans_lt hfit⟩
  | approve => exact .inl rfl
  | @burn a amount hamount =>
    exact .inr ⟨_, rfl, (hamount.trans (hle s.balance a)).trans hsum.le⟩
  | deposit | addTotalSupply | subTotalSupply => cases hop

/-- Such a relay is executed, and the balances sum to the supply again. -/
theorem settle_of_called (hc : Called s k eff) (hop : k.isOperation)
    (hsum : ∑ a, s.balance a = s.totalSupply) (hfit : s.totalSupply + mintRequest k < 2 ^ 256) :
    ∃ t, settle eff.relays eff.state = .ok t ∧ eff.relays.length ≤ 1 ∧
      ∑ a, t.balance a = t.totalSupply ∧ t.totalSupply ≤ s.totalSupply + mintRequest k := by
  have hminted : minted (.call k (.ok eff.value)) = mintRequest k := by cases k <;> rfl
  obtain ⟨hbalance, hsupply, hadd, hsubtract⟩ := hc.books hop
  rw [hminted] at hbalance hadd
  rcases relays_of_called hc hop hsum hfit with hrelays | ⟨m, hrelays, hm⟩
  · rw [hrelays] at hbalance hadd hsubtract ⊢
    simp only [List.map_nil, List.sum_nil] at hbalance hadd hsubtract
    refine ⟨eff.state, rfl, Nat.zero_le 1, ?_, ?_⟩ <;> omega
  · rw [hrelays] at hbalance hadd hsubtract ⊢
    simp only [List.map_cons, List.map_nil, List.sum_cons, List.sum_nil] at hbalance hadd hsubtract
    cases hk : Erc20.machine.relay m eff.state with
    | error f => exact absurd hk (relay_ne_error hm)
    | ok eff' =>
      obtain ⟨hbalance', hsupply', -⟩ := (delivered_of_ok hk).books
      refine ⟨eff'.state, by simp [hk], Nat.le_refl 1, ?_, ?_⟩ <;> omega

end Books

/-! ### Eager runs -/

/-- The relays in flight, at most one, would take the state to `t`. -/
def Settles (c : Config (State A) (Relay A)) (t : State A) : Prop :=
  ∃ ms : List (Relay A), c.inFlight = ms ∧ ms.length ≤ 1 ∧ settle ms c.state = .ok t

theorem Settles.eq_of_quiescent {c : Config (State A) (Relay A)} {t : State A}
    (hc : Settles c t) (hq : c.inFlight = 0) : c.state = t := by
  obtain ⟨ms, hms, -, hsettle⟩ := hc
  rw [hq, eq_comm, Multiset.coe_eq_zero] at hms
  rw [hms, settle_nil] at hsettle
  exact Except.ok.inj hsettle

/-- The one relay in flight is executed, and does what it has to. -/
theorem Settles.relay {s t : State A} {m : Relay A} {rest : Multiset (Relay A)}
    (hc : Settles ⟨s, m ::ₘ rest⟩ t) :
    ∃ eff, Erc20.machine.relay m s = .ok eff ∧ rest = 0 ∧ eff.relays = [] ∧ eff.state = t := by
  obtain ⟨ms, hms, hlen, hsettle⟩ := hc
  have hcard : rest.card + 1 = ms.length := by
    rw [← Multiset.card_cons m, show m ::ₘ rest = ms from hms, Multiset.coe_card]
  have hrest : rest = 0 := Multiset.card_eq_zero.mp (by omega)
  have hms : ms = [m] := by
    rw [← Multiset.coe_eq_singleton, ← show m ::ₘ rest = ms from hms, hrest, Multiset.cons_zero]
  rw [hms, settle_cons] at hsettle
  obtain ⟨eff, hk, ht⟩ := exists_of_bind_eq_ok hsettle
  exact ⟨eff, hk, hrest, (delivered_of_ok hk).relays_eq_nil, Except.ok.inj ht⟩

/-- What ties an eager run to the original: the original is where the relays in flight will take
the contract, and its balances sum to its supply. -/
structure Tracks [Fintype A] (h : History A) (c : Config (State A) (Relay A)) (t : State A) :
    Prop where
  settles : Settles c t
  sum : ∑ a, t.balance a = t.totalSupply
  minted : t.totalSupply ≤ ((calls h).map mintRequest).sum

section Eager

variable [Fintype A] {ks : List (Call A)} {h : History A} {c : Config (State A) (Relay A)}

theorem tracks_empty : Tracks (A := A) [] ⟨empty, 0⟩ empty where
  settles := ⟨[], rfl, Nat.zero_le 1, rfl⟩
  sum := Finset.sum_const_zero
  minted := Nat.le_refl 0

/-- An eager run of a list of operations is matched by a run of the original. -/
theorem exists_standard_run (hops : ∀ k ∈ ks, k.isOperation)
    (hmint : (ks.map mintRequest).sum < 2 ^ 256)
    (hr : Erc20.machine.Run Eager ⟨empty, 0⟩ h c) (hks : calls h <:+ ks) :
    ∃ h' t, machine.Run Anything ⟨empty, 0⟩ h' ⟨t, 0⟩ ∧ outcomes h' = outcomes h ∧
      Tracks h c t := by
  refine (hr.along hks).refines tracks_empty ?_ ?_ ?_ ?_
  · rintro h c k eff t ht ⟨hq, hks⟩ hk
    obtain rfl := ht.settles.eq_of_quiescent hq
    rw [calls_cons_call] at hks
    have hfit : c.state.totalSupply + mintRequest k < 2 ^ 256 := by
      have hle := (hks.map mintRequest).sublist.sum_le_sum fun _ _ => Nat.zero_le _
      rw [List.map_cons, List.sum_cons] at hle
      have := ht.minted
      omega
    obtain ⟨t', hsettle, hlen, hsum, hle⟩ := settle_of_called (called_of_ok hk)
      (hops k (hks.subset List.mem_cons_self)) ht.sum hfit
    refine ⟨t', ?_, ⟨eff.relays, ?_, hlen, hsettle⟩, hsum, ?_⟩
    · rw [standard_eq_settled, hk, ok_bind, hsettle, ok_bind]
    · rw [show c.inFlight = 0 from hq, zero_add]
    · rw [calls_cons_call, List.map_cons, List.sum_cons]
      have := ht.minted
      omega
  · rintro h c k f t ht ⟨hq, hks⟩ hk
    obtain rfl := ht.settles.eq_of_quiescent hq
    refine ⟨by rw [standard_eq_settled, hk, error_bind], ht.settles, ht.sum, ?_⟩
    rw [calls_cons_call, List.map_cons, List.sum_cons]
    exact ht.minted.trans (Nat.le_add_left _ _)
  · rintro h s m rest eff t ht hk
    obtain ⟨eff', hk', rfl, hrelays, rfl⟩ := ht.settles.relay
    cases hk.symm.trans hk'
    exact ⟨⟨[], by rw [hrelays]; rfl, Nat.zero_le 1, rfl⟩, ht.sum, ht.minted⟩
  · rintro h s m rest f t ht hk
    obtain ⟨eff', hk', -⟩ := ht.settles.relay
    cases hk.symm.trans hk'

/-- **The relay contract refines its original.** Take any list of calls to the five operations by
any senders, latest first, whose mints sum below `2 ^ 256`. It has a run from the empty state in
which each call waits for the relays of the one before. And whenever nothing is in flight in such a
run, the calls made so far have returned, call by call, what they return from the original, and the
state is the one the original is in after them. -/
theorem eager_agrees_with_standard (hops : ∀ k ∈ ks, k.isOperation)
    (hmint : (ks.map mintRequest).sum < 2 ^ 256) :
    (∃ h c, Erc20.machine.Run Eager ⟨empty, 0⟩ h c ∧ c.inFlight = 0 ∧ calls h = ks) ∧
    ∀ h c h' c', Erc20.machine.Run Eager ⟨empty, 0⟩ h c → c.inFlight = 0 → calls h <:+ ks →
      machine.Run Anything ⟨empty, 0⟩ h' c' → calls h' = calls h →
      outcomes h' = outcomes h ∧ c'.state = c.state := by
  constructor
  · refine Machine.exists_eager_run (fun _ => 1) (fun _ => Nat.one_pos) (fun hk => ?_) empty ks
    rw [(delivered_of_ok hk).relays_eq_nil]
    exact Nat.one_pos
  · intro h c h' c' hr hq hks hr' hcalls
    obtain ⟨h'', t, hr'', hout, ht⟩ := exists_standard_run hops hmint hr hks
    have hcalls' : calls h' = calls h'' := by
      rw [hcalls, ← map_fst_outcomes, ← hout, map_fst_outcomes]
    obtain ⟨hout', hstate⟩ := hr'.outcomes_unique hr'' hcalls'
    exact ⟨hout'.trans hout, hstate.trans (ht.settles.eq_of_quiescent hq).symm⟩

end Eager

/-- Address 0 mints 5 and approves address 1, who moves 2 of it to itself and then 4 in vain;
address 0 burns 1. -/
theorem eager_agrees_with_standard_allowance : ∃ h c h' c',
    Erc20.machine.Run Eager ⟨empty, 0⟩ h c ∧ machine.Run Anything ⟨empty, 0⟩ h' c' ∧
      calls h = [.burn 0 0 1, .transferFrom 1 0 0 1 4, .transferFrom 1 0 0 1 2,
        .approve 0 0 1 3, .mint (0 : Fin 2) 0 5] ∧
      outcomes h' = outcomes h ∧ c'.state = c.state := by
  obtain ⟨⟨h, c, hr, hq, hcalls⟩, hsame⟩ := @eager_agrees_with_standard (Fin 2) _ _
    [.burn 0 0 1, .transferFrom 1 0 0 1 4, .transferFrom 1 0 0 1 2, .approve 0 0 1 3, .mint 0 0 5]
    (by decide) (by decide)
  obtain ⟨h', c', hr', hcalls'⟩ := (machine (A := Fin 2)).exists_run empty (calls h)
  exact ⟨h, c, h', c', hr, hr', hcalls, hsame h c h' c' hr hq ⟨[], hcalls⟩ hr' hcalls'⟩

end Erc20Standard

end Crystality

end RelayContracts
