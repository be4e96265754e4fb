import RelayContracts.Preda.Erc20
import RelayContracts.Translation
import Mathlib.Algebra.BigOperators.Ring.Finset
import Mathlib.Data.ZMod.Basic

/-!
# The PREDA ERC20 contract over `uint256`

The token contract of `ERC20_uint256.prd`. It is a copy of `ERC20.prd` with amounts of type
`uint256`. The assertions that amounts are not negative hold always, and `transfer` can not be
called with a negative amount any more. In their place comes the range of the type, which nothing
checks: `mint` and the relays add to a balance, and `transfer_n` adds up the payments of a batch
before it compares the sum with the balance.

What the runtime does when a sum is out of range is a parameter. As long as all there is fits into
the type, it does not show: the runs are those of `ERC20.prd` (`bounded_runs_agree`). Beyond, a
runtime that traps loses the amounts of the credits that fail, and one that wraps around conserves
amounts only modulo `2 ^ 256` (`uint256_accounts`); a batch whose sum wraps around then pays out
what nobody had (`overflowing_batch`).

## Main definitions

* `transfer`, `mint`, `sumAmounts`, `transferN`, `credit`, `machine` — the contract
* `State.toBigint`, `Call.toBigint`, `Relay.toBigint` — the translation to `ERC20.prd`
* `Bounded` — all there is fits into the type

## Main results

* `bounded_runs_agree` — within bounds, the two contracts have the same runs
* `uint256_accounts` — what is conserved without bounds
* `overflowing_batch` — a batch whose sum is out of range
-/

namespace RelayContracts

namespace Preda

namespace Erc20Uint256

open RelayMachine

/-- `struct payment`. -/
structure Payment (A : Type) where
  /-- The field `to`: the receiver. -/
  dest : A
  /-- The amount, a `uint256`. -/
  amount : ℕ
  deriving DecidableEq, Repr

/-- The state of the contract. -/
structure State (A : Type) where
  /-- `@address uint256 balance`. -/
  balance : A → ℕ

/-- The exported functions, with the address they are called at. -/
inductive Call (A : Type) where
  /-- `transfer(to, amount)`. -/
  | transfer (self dest : A) (amount : ℕ)
  /-- `mint(value)`. -/
  | mint (self : A) (value : ℕ)
  /-- `transfer_n(recipients)`. -/
  | transferN (self : A) (recipients : List (Payment A))
  deriving DecidableEq, Repr

/-- The relayed blocks. `transfer` and `transfer_n` relay the same one. -/
inductive Relay (A : Type) where
  /-- `relay@to`: `balance += amount`. -/
  | credit (dest : A) (amount : ℕ)
  deriving DecidableEq, Repr

variable {A : Type}

/-- The amount a relay carries. -/
def Relay.amount : Relay A → ℕ
  | .credit _ amount => amount

section Functions

variable [DecidableEq A] (p : Overflow)

/-- `transfer(to, amount)`. -/
def transfer (self dest : A) (amount : ℕ) (s : State A) :
    Except Fault (Effect (State A) (Relay A) (Option Bool)) :=
  if s.balance self ≥ amount then do
    let balance ← subU (s.balance self) amount
    .ok ⟨⟨Function.update s.balance self balance⟩, some true, [.credit dest amount]⟩
  else .ok ⟨s, some false, []⟩

/-- `mint(value)`. -/
def mint (self : A) (value : ℕ) (s : State A) :
    Except Fault (Effect (State A) (Relay A) (Option Bool)) :=
  if value ≥ 0 then do
    let balance ← addU p 256 (s.balance self) value
    .ok ⟨⟨Function.update s.balance self balance⟩, none, []⟩
  else .error .assertion

/-- The first loop of `transfer_n`, from a total so far: check every amount and sum them up. -/
def sumAmounts : List (Payment A) → ℕ → Except Fault ℕ
  | [], total => .ok total
  | q :: qs, total =>
    if q.amount ≥ 0 then do
      let total ← addU p 256 total q.amount
      sumAmounts qs total
    else .error .assertion

/-- The second loop of `transfer_n`: one relay for every positive amount. -/
def credits (recipients : List (Payment A)) : List (Relay A) :=
  recipients.filterMap fun q => if q.amount > 0 then some (.credit q.dest q.amount) else none

/-- `transfer_n(recipients)`. -/
def transferN (self : A) (recipients : List (Payment A)) (s : State A) :
    Except Fault (Effect (State A) (Relay A) (Option Bool)) := do
  let total ← sumAmounts p recipients 0
  if total ≤ s.balance self then do
    let balance ← subU (s.balance self) total
    .ok ⟨⟨Function.update s.balance self balance⟩, some true, credits recipients⟩
  else .ok ⟨s, some false, []⟩

/-- The relayed block. -/
def credit (dest : A) (amount : ℕ) (s : State A) :
    Except Fault (Effect (State A) (Relay A) (Option Bool)) := do
  let balance ← addU p 256 (s.balance dest) amount
  .ok ⟨⟨Function.update s.balance dest balance⟩, none, []⟩

/-- The contract as a relay machine. -/
def machine : Machine (State A) (Call A) (Relay A) (Option Bool) Fault where
  call
    | .transfer self dest amount => transfer self dest amount
    | .mint self value => mint p self value
    | .transferN self recipients => transferN p self recipients
  relay
    | .credit dest amount => credit p dest amount

end Functions

/-! ### The loops of `transfer_n` -/

/-- What a list of payments amounts to. -/
def totalAmount (recipients : List (Payment A)) : ℕ := (recipients.map Payment.amount).sum

@[simp] theorem totalAmount_nil : totalAmount ([] : List (Payment A)) = 0 := rfl

@[simp] theorem totalAmount_cons (q : Payment A) (qs : List (Payment A)) :
    totalAmount (q :: qs) = q.amount + totalAmount qs := List.sum_cons

/-- In range, the first loop sums up. -/
theorem sumAmounts_of_lt {p : Overflow} {recipients : List (Payment A)} {t : ℕ}
    (h : t + totalAmount recipients < 2 ^ 256) :
    sumAmounts p recipients t = .ok (t + totalAmount recipients) := by
  induction recipients generalizing t with
  | nil => rfl
  | cons q qs ih =>
    rw [totalAmount_cons, ← Nat.add_assoc] at h
    rw [sumAmounts, if_pos (Nat.zero_le _), addU_of_lt (by omega), ok_bind, ih h,
      totalAmount_cons, Nat.add_assoc]

/-- What sums are kept modulo: a runtime that traps keeps them exactly. -/
def modulus : Overflow → ℕ
  | .trap => 0
  | .wrap => 2 ^ 256

theorem modEq_of_addU {p : Overflow} {a b c : ℕ} (h : addU p 256 a b = .ok c) :
    c ≡ a + b [MOD modulus p] := by
  cases p with
  | trap => rw [(addU_trap_eq_ok.mp h).2]
  | wrap =>
    rw [addU] at h
    split at h
    · cases h
      rfl
    · cases h
      exact Nat.mod_modEq _ _

/-- If the first loop ends, it has summed up modulo the modulus. -/
theorem modEq_of_sumAmounts {p : Overflow} {recipients : List (Payment A)} {t total : ℕ}
    (h : sumAmounts p recipients t = .ok total) :
    total ≡ t + totalAmount recipients [MOD modulus p] := by
  induction recipients generalizing t with
  | nil =>
    cases h
    rfl
  | cons q qs ih =>
    rw [sumAmounts, if_pos (Nat.zero_le _)] at h
    obtain ⟨t', ht', h⟩ := exists_of_bind_eq_ok h
    rw [totalAmount_cons, ← Nat.add_assoc]
    exact (ih h).trans ((modEq_of_addU ht').add_right _)

theorem credits_cons (q : Payment A) (qs : List (Payment A)) :
    credits (q :: qs) =
      if q.amount > 0 then .credit q.dest q.amount :: credits qs else credits qs := by
  rw [credits, List.filterMap_cons]
  by_cases hq : q.amount > 0
  · rw [if_pos hq, if_pos hq]
    rfl
  · rw [if_neg hq, if_neg hq]
    rfl

/-- The relays of the second loop carry all payments. -/
theorem sum_amount_credits (recipients : List (Payment A)) :
    ((credits recipients).map Relay.amount).sum = totalAmount recipients := by
  induction recipients with
  | nil => rfl
  | cons q qs ih =>
    rw [credits_cons, totalAmount_cons, ← ih]
    by_cases hq : q.amount > 0
    · rw [if_pos hq, List.map_cons, List.sum_cons]
      rfl
    · rw [if_neg hq, Nat.eq_zero_of_not_pos hq, Nat.zero_add]

/-! ### What a successful call did -/

variable [DecidableEq A]

/-- What a successful call did, at a state `s`. -/
inductive Called (p : Overflow) (s : State A) :
    Call A → Effect (State A) (Relay A) (Option Bool) → Prop
  /-- `transfer` debited the sender and relayed the credit. -/
  | transfer {a dest : A} {amount : ℕ} (hle : amount ≤ s.balance a) :
      Called p s (.transfer a dest amount)
        ⟨⟨Function.update s.balance a (s.balance a - amount)⟩, some true, [.credit dest amount]⟩
  /-- `transfer` found the balance too small, and changed nothing. -/
  | transferFalse {a dest : A} {amount : ℕ} (hlt : s.balance a < amount) :
      Called p s (.transfer a dest amount) ⟨s, some false, []⟩
  /-- `mint` credited the caller. -/
  | mint {a : A} {value balance : ℕ} (hadd : addU p 256 (s.balance a) value = .ok balance) :
      Called p s (.mint a value) ⟨⟨Function.update s.balance a balance⟩, none, []⟩
  /-- `transfer_n` debited what it summed up and relayed the credits. -/
  | transferN {a : A} {recipients : List (Payment A)} {total : ℕ}
      (hsum : sumAmounts p recipients 0 = .ok total) (hle : total ≤ s.balance a) :
      Called p s (.transferN a recipients)
        ⟨⟨Function.update s.balance a (s.balance a - total)⟩, some true, credits recipients⟩
  /-- `transfer_n` found the balance too small, and changed nothing. -/
  | transferNFalse {a : A} {recipients : List (Payment A)} {total : ℕ}
      (hsum : sumAmounts p recipients 0 = .ok total) (hlt : s.balance a < total) :
      Called p s (.transferN a recipients) ⟨s, some false, []⟩

theorem transfer_of_le {s : State A} {a dest : A} {amount : ℕ} (h : amount ≤ s.balance a) :
    transfer a dest amount s = .ok ⟨⟨Function.update s.balance a (s.balance a - amount)⟩,
      some true, [.credit dest amount]⟩ := by
  rw [transfer, if_pos h, subU_of_le h, ok_bind]

theorem transferN_of_le {p : Overflow} {s : State A} {a : A} {recipients : List (Payment A)}
    {total : ℕ} (hsum : sumAmounts p recipients 0 = .ok total) (h : total ≤ s.balance a) :
    transferN p a recipients s = .ok ⟨⟨Function.update s.balance a (s.balance a - total)⟩,
      some true, credits recipients⟩ := by
  rw [transferN, hsum, ok_bind, if_pos h, subU_of_le h, ok_bind]

theorem transferN_of_lt {p : Overflow} {s : State A} {a : A} {recipients : List (Payment A)}
    {total : ℕ} (hsum : sumAmounts p recipients 0 = .ok total) (h : s.balance a < total) :
    transferN p a recipients s = .ok ⟨s, some false, []⟩ := by
  rw [transferN, hsum, ok_bind, if_neg (Nat.not_le.mpr h)]

theorem called_of_ok {p : Overflow} {s : State A} {k : Call A}
    {eff : Effect (State A) (Relay A) (Option Bool)} (h : (machine p).call k s = .ok eff) :
    Called p s k eff := by
  cases k with
  | transfer a dest amount =>
    have h : transfer a dest amount s = .ok eff := h
    rcases Nat.lt_or_ge (s.balance a) amount with hlt | hle
    · rw [transfer, if_neg (Nat.not_le.mpr hlt)] at h
      cases h
      exact .transferFalse hlt
    · rw [transfer_of_le hle] at h
      cases h
      exact .transfer hle
  | mint a value =>
    have h : mint p a value s = .ok eff := h
    rw [mint, if_pos (Nat.zero_le _)] at h
    obtain ⟨balance, hadd, rfl⟩ := bind_ok_eq_ok.mp h
    exact .mint hadd
  | transferN a recipients =>
    have h : transferN p a recipients s = .ok eff := h
    obtain ⟨total, hsum, -⟩ := exists_of_bind_eq_ok h
    rcases Nat.lt_or_ge (s.balance a) total with hlt | hle
    · rw [transferN_of_lt hsum hlt] at h
      cases h
      exact .transferNFalse hsum hlt
    · rw [transferN_of_le hsum hle] at h
      cases h
      exact .transferN hsum hle

/-! ### What is conserved -/

section Conservation

variable [Fintype A]

/-- All balances together. -/
def State.total (s : State A) : ℕ := ∑ a, s.balance a

/-- What a call brings in if it does not fail. -/
def Call.minted : Call A → ℕ
  | .mint _ value => value
  | _ => 0

/-- What a `mint` that did not fail has brought in. -/
def minted : Event (Call A) (Relay A) (Option Bool) Fault → ℕ
  | .call k (.ok _) => k.minted
  | _ => 0

theorem total_debit {s : State A} {a : A} {v : ℕ} (h : v ≤ s.balance a) :
    State.total ⟨Function.update s.balance a (s.balance a - v)⟩ + v = s.total :=
  sum_update_debit s.balance (Nat.sub_add_cancel h)

/-- Writing a balance that is out by the modulus changes the total likewise. -/
theorem total_credit {p : Overflow} {s : State A} {a : A} {v balance : ℕ}
    (h : addU p 256 (s.balance a) v = .ok balance) :
    State.total ⟨Function.update s.balance a balance⟩ ≡ s.total + v [MOD modulus p] := by
  have hdebit : State.total ⟨Function.update s.balance a 0⟩ + s.balance a = s.total :=
    sum_update_debit s.balance (Nat.zero_add _)
  have hcredit : State.total ⟨Function.update s.balance a balance⟩ =
      State.total ⟨Function.update s.balance a 0⟩ + balance := by
    have := sum_update_credit (Function.update s.balance a 0) a balance
    rwa [Function.update_self, Nat.zero_add, Function.update_idem] at this
  rw [hcredit, ← hdebit, Nat.add_assoc]
  exact (modEq_of_addU h).add_left _

/-- A call moves the sender's debit into flight, and brings in what it mints. -/
theorem Called.balanced {p : Overflow} {s : State A} {k : Call A}
    {eff : Effect (State A) (Relay A) (Option Bool)} (hk : Called p s k eff) :
    eff.state.total + (eff.relays.map Relay.amount).sum ≡ s.total + k.minted [MOD modulus p] := by
  cases hk with
  | transfer hle =>
    rw [← total_debit hle]
    rfl
  | transferFalse => rfl
  | mint hadd => exact total_credit hadd
  | transferN hsum hle =>
    rw [← total_debit hle, sum_amount_credits]
    have htotal := modEq_of_sumAmounts hsum
    rw [Nat.zero_add] at htotal
    exact htotal.symm.add_left _
  | transferNFalse => rfl

variable {p : Overflow} {s₀ : State A}
  {h : List (Event (Call A) (Relay A) (Option Bool) Fault)} {c : Config (State A) (Relay A)}

/-- The balances, the amounts in flight and those of failed credits are the initial balances and
what was minted, modulo the modulus. -/
theorem balances_add_inFlight (hr : (machine p).Run Anything ⟨s₀, 0⟩ h c) :
    c.state.total + c.carried Relay.amount + booked (reverted Relay.amount) h ≡
      s₀.total + booked minted h [MOD modulus p] := by
  -- the rule of conservation is about equations, and congruent numbers are equal as residues
  have hbal := hr.conserved (fun s => (s.total : ZMod (modulus p)))
    (fun m => (m.amount : ZMod (modulus p)))
    (fun e => ((reverted Relay.amount e : ℕ) : ZMod (modulus p)))
    (fun e => (minted e : ZMod (modulus p))) ?_ ?_ ?_ ?_
  · refine (ZMod.natCast_eq_natCast_iff _ _ _).mp ?_
    simpa [Config.carried, booked, Nat.cast_multiset_sum, Nat.cast_list_sum, Function.comp_def]
      using hbal
  · intro h c k eff _ hk
    have hcast := (ZMod.natCast_eq_natCast_iff _ _ _).mpr (called_of_ok hk).balanced
    simpa [minted, Nat.cast_list_sum, Function.comp_def] using hcast
  · intro s k f _
    rfl
  · rintro s ⟨dest, amount⟩ eff hk
    obtain ⟨balance, hadd, rfl⟩ := bind_ok_eq_ok.mp (show credit p dest amount s = .ok eff from hk)
    have hcast := (ZMod.natCast_eq_natCast_iff _ _ _).mpr (total_credit hadd)
    simpa [minted, Relay.amount] using hcast
  · rintro s ⟨dest, amount⟩ f _
    simp [minted]

omit [Fintype A] in
/-- A runtime that wraps around loses no credit. -/
theorem reverted_eq_zero (hr : (machine .wrap).Run Anything ⟨s₀, 0⟩ h c) :
    booked (reverted Relay.amount) h = 0 := by
  refine hr.invariant (I := fun h _ => booked (reverted Relay.amount) h = 0) rfl ?_ ?_ ?_ ?_
  · intro h c k eff _ ih _ _
    simpa using ih
  · intro h c k f _ ih _ _
    simpa using ih
  · intro h s m rest eff _ ih _ _
    simpa using ih
  · rintro h s ⟨dest, amount⟩ rest f _ _ _ hk
    have hadd : addU .wrap 256 (s.balance dest) amount = .error f :=
      bind_ok_eq_error.mp (show credit .wrap dest amount s = .error f from hk)
    rw [addU] at hadd
    split at hadd <;> cases hadd

/-- **What is conserved.** If the runtime traps, the balances, the amounts in flight and the amounts
of the credits that failed are the initial balances and what was minted. If it wraps around, no
credit fails, and the balances and the amounts in flight are the initial balances and what was
minted modulo `2 ^ 256`. -/
theorem uint256_accounts (hr : (machine p).Run Anything ⟨s₀, 0⟩ h c) :
    (p = .trap → c.state.total + c.carried Relay.amount + booked (reverted Relay.amount) h =
      s₀.total + booked minted h) ∧
    (p = .wrap → c.state.total + c.carried Relay.amount ≡
      s₀.total + booked minted h [MOD 2 ^ 256]) := by
  constructor
  · rintro rfl
    exact Nat.modEq_zero_iff.mp (balances_add_inFlight hr)
  · rintro rfl
    have hbal := balances_add_inFlight hr
    rwa [reverted_eq_zero hr, Nat.add_zero] at hbal

/-- A credit to a full account fails, and its amount is lost. -/
theorem uint256_accounts_lost : ∃ h c,
    (machine .trap).Run Anything ⟨⟨fun _ : Fin 2 => 2 ^ 256 - 1⟩, 0⟩ h c ∧
      booked (reverted Relay.amount) h = 5 ∧
      c.state.total + c.carried Relay.amount + booked (reverted Relay.amount) h =
        State.total ⟨fun _ : Fin 2 => 2 ^ 256 - 1⟩ + booked minted h := by
  obtain ⟨⟨h, c⟩, hx, hlost⟩ :
      ∃ r ∈ (machine .trap).exec Anything ⟨⟨fun _ : Fin 2 => 2 ^ 256 - 1⟩, 0⟩
        [.call (.transfer 0 1 5), .deliver (.credit 1 5)],
        booked (reverted Relay.amount) r.1 = 5 := by decide
  have hr := Machine.exec_run hx
  exact ⟨h, c, hr, hlost, (uint256_accounts hr).1 rfl⟩

end Conservation

/-! ### Translation to `ERC20.prd` -/

/-- A payment of `ERC20.prd`. -/
def Payment.toBigint (q : Payment A) : Erc20.Payment A := ⟨q.dest, q.amount⟩

/-- A state of `ERC20.prd`. -/
def State.toBigint (s : State A) : Erc20.State A := ⟨fun a => s.balance a⟩

/-- A call of `ERC20.prd`. -/
def Call.toBigint : Call A → Erc20.Call A
  | .transfer self dest amount => .transfer self dest amount
  | .mint self value => .mint self value
  | .transferN self recipients => .transferN self (recipients.map Payment.toBigint)

/-- A relay of `ERC20.prd`. -/
def Relay.toBigint : Relay A → Erc20.Relay A
  | .credit dest amount => .credit dest amount

omit [DecidableEq A] in
theorem Payment.toBigint_injective : (Payment.toBigint : Payment A → _).Injective := by
  rintro ⟨dest, amount⟩ ⟨dest', amount'⟩ heq
  simpa [Payment.toBigint] using heq

omit [DecidableEq A] in
theorem Call.toBigint_injective : (Call.toBigint : Call A → _).Injective := by
  intro k k' heq
  cases k with
  | transfer self dest amount =>
    cases k' with
    | transfer => simpa [Call.toBigint] using heq
    | mint => cases heq
    | transferN => cases heq
  | mint self value =>
    cases k' with
    | transfer => cases heq
    | mint => simpa [Call.toBigint] using heq
    | transferN => cases heq
  | transferN self recipients =>
    cases k' with
    | transfer => cases heq
    | mint => cases heq
    | transferN =>
      obtain ⟨rfl, hmap⟩ := Erc20.Call.transferN.inj heq
      rw [List.map_injective_iff.mpr Payment.toBigint_injective hmap]

theorem toBigint_update (s : State A) (a : A) (v : ℕ) :
    State.toBigint ⟨Function.update s.balance a v⟩ =
      ⟨Function.update s.toBigint.balance a (v : ℤ)⟩ :=
  congrArg Erc20.State.mk (Function.comp_update (fun n : ℕ => (n : ℤ)) s.balance a v)

omit [DecidableEq A] in
theorem totalAmount_toBigint (recipients : List (Payment A)) :
    Erc20.totalAmount (recipients.map Payment.toBigint) = totalAmount recipients := by
  rw [Erc20.totalAmount, totalAmount, Nat.cast_list_sum, List.map_map, List.map_map]
  rfl

omit [DecidableEq A] in
theorem credits_toBigint (recipients : List (Payment A)) :
    Erc20.credits (recipients.map Payment.toBigint) = (credits recipients).map Relay.toBigint := by
  induction recipients with
  | nil => rfl
  | cons q qs ih =>
    rw [List.map_cons, Erc20.credits_cons, credits_cons, ih]
    by_cases hq : q.amount > 0
    · rw [if_pos hq, if_pos (show q.toBigint.amount > 0 from Int.natCast_pos.mpr hq)]
      rfl
    · rw [if_neg hq, if_neg (show ¬ q.toBigint.amount > 0 from mt Int.natCast_pos.mp hq)]

/-- The batch of `ERC20.prd` sums up without bounds. -/
theorem transferN_toBigint (a : A) (recipients : List (Payment A)) (s : State A) :
    Erc20.transferN a (recipients.map Payment.toBigint) s.toBigint =
      if totalAmount recipients ≤ s.balance a then
        .ok ⟨⟨Function.update s.toBigint.balance a (s.balance a - totalAmount recipients : ℤ)⟩,
          some true, (credits recipients).map Relay.toBigint⟩
      else .ok ⟨s.toBigint, some false, []⟩ := by
  have hnonneg : ∀ q ∈ recipients.map Payment.toBigint, 0 ≤ q.amount := by
    intro q hq
    obtain ⟨q', -, rfl⟩ := List.mem_map.mp hq
    exact Int.natCast_nonneg _
  rw [Erc20.transferN, Erc20.sumAmounts_eq_ok.mpr ⟨hnonneg, rfl⟩, ok_bind, zero_add,
    totalAmount_toBigint, credits_toBigint]
  exact if_congr Int.ofNat_le rfl rfl

/-! ### The two contracts within bounds -/

section Bounds

variable {p : Overflow} {s : State A}

theorem transfer_agrees (a dest : A) (amount : ℕ) (s : State A) :
    Erc20.transfer a dest amount s.toBigint =
      (transfer a dest amount s).map (Effect.map State.toBigint Relay.toBigint) := by
  rcases Nat.lt_or_ge (s.balance a) amount with hlt | hle
  · have hlt' : ¬ s.toBigint.balance a ≥ amount := not_le.mpr (Int.ofNat_lt.mpr hlt)
    rw [transfer, if_neg (Nat.not_le.mpr hlt), Erc20.transfer, if_neg hlt']
    rfl
  · have hle' : s.toBigint.balance a ≥ amount := Int.ofNat_le.mpr hle
    rw [transfer_of_le hle, Erc20.transfer, if_pos hle']
    simp only [Except.map, Effect.map, toBigint_update, Nat.cast_sub hle]
    rfl

theorem mint_agrees {a : A} {value : ℕ} (h : s.balance a + value < 2 ^ 256) :
    Erc20.mint a value s.toBigint =
      (mint p a value s).map (Effect.map State.toBigint Relay.toBigint) := by
  rw [mint, if_pos (Nat.zero_le _), addU_of_lt h, ok_bind, Erc20.mint,
    if_pos (Int.natCast_nonneg _)]
  simp only [Except.map, Effect.map, toBigint_update, Nat.cast_add]
  rfl

theorem transferN_agrees {a : A} {recipients : List (Payment A)}
    (h : totalAmount recipients < 2 ^ 256) :
    Erc20.transferN a (recipients.map Payment.toBigint) s.toBigint =
      (transferN p a recipients s).map (Effect.map State.toBigint Relay.toBigint) := by
  have hsum : sumAmounts p recipients 0 = .ok (totalAmount recipients) := by
    rw [sumAmounts_of_lt (by omega), Nat.zero_add]
  rw [transferN_toBigint]
  rcases Nat.lt_or_ge (s.balance a) (totalAmount recipients) with hlt | hle
  · rw [transferN_of_lt hsum hlt, if_neg (Nat.not_le.mpr hlt)]
    rfl
  · rw [transferN_of_le hsum hle, if_pos hle]
    simp only [Except.map, Effect.map, toBigint_update, Nat.cast_sub hle]

theorem credit_agrees {dest : A} {amount : ℕ} (h : s.balance dest + amount < 2 ^ 256) :
    Erc20.credit dest amount s.toBigint =
      (credit p dest amount s).map (Effect.map State.toBigint Relay.toBigint) := by
  rw [credit, addU_of_lt h, ok_bind, Erc20.credit]
  simp only [Except.map, Effect.map, toBigint_update, Nat.cast_add]
  rfl

variable [Fintype A] {s₀ : State A} {ks : List (Call A)}
  {h : List (Event (Call A) (Relay A) (Option Bool) Fault)} {c : Config (State A) (Relay A)}

/-- The initial balances and all that is to be minted fit into the type, and so does the sum of
every batch. -/
structure Bounded (s₀ : State A) (ks : List (Call A)) : Prop where
  /-- All there will ever be. -/
  supply : s₀.total + (ks.map Call.minted).sum < 2 ^ 256
  /-- The batches. -/
  batch : ∀ {self recipients}, .transferN self recipients ∈ ks → totalAmount recipients < 2 ^ 256

omit [DecidableEq A] [Fintype A] in
/-- What was minted is at most what the calls were to mint. -/
theorem booked_minted_le (h : List (Event (Call A) (Relay A) (Option Bool) Fault)) :
    booked Erc20.minted (h.map (Event.map Call.toBigint Relay.toBigint)) ≤
      (((calls h).map Call.minted).sum : ℕ) := by
  induction h with
  | nil => simp
  | cons e h ih =>
    rw [List.map_cons, booked_cons]
    cases e with
    | deliver m r => simpa [Event.map, Erc20.minted] using ih
    | call k r =>
      have hk : Erc20.minted (Event.call k.toBigint r : Event _ (Erc20.Relay A) _ _) ≤
          k.minted := by
        cases r with
        | error f => exact Int.natCast_nonneg _
        | ok v => cases k <;> exact le_refl _
      rw [calls_cons_call, List.map_cons, List.sum_cons, Nat.cast_add]
      exact add_le_add hk ih

/-- Where a run of `ERC20.prd` is the translation of a history, no more is there than the initial
balances and what the calls were to mint. -/
theorem total_le
    (hr : Erc20.machine.Run Anything ((⟨s₀, 0⟩ : Config (State A) (Relay A)).map State.toBigint
      Relay.toBigint) (h.map (Event.map Call.toBigint Relay.toBigint))
      (c.map State.toBigint Relay.toBigint)) :
    c.state.total + c.carried Relay.amount ≤ s₀.total + ((calls h).map Call.minted).sum := by
  have hbal := Erc20.balances_add_inFlight hr
  have hminted := booked_minted_le h
  have hcarried : (c.map State.toBigint Relay.toBigint).carried Erc20.Relay.amount =
      (c.carried Relay.amount : ℕ) := by
    rw [Config.carried, Config.carried, Config.map, Multiset.map_map, Nat.cast_multiset_sum,
      Multiset.map_map]
    refine congrArg Multiset.sum (Multiset.map_congr rfl ?_)
    rintro ⟨dest, amount⟩ -
    rfl
  have hstate : ∑ a, (c.map State.toBigint Relay.toBigint).state.balance a = c.state.total :=
    (Nat.cast_sum _ _).symm
  have hstart : ∑ a, s₀.toBigint.balance a = s₀.total := (Nat.cast_sum _ _).symm
  change _ = ∑ a, s₀.toBigint.balance a + _ at hbal
  rw [hcarried, hstate, hstart] at hbal
  omega

omit [DecidableEq A] [Fintype A] in
theorem minted_sum_le {ks₁ : List (Call A)} (hs : ks₁ <:+ ks) :
    (ks₁.map Call.minted).sum ≤ (ks.map Call.minted).sum := by
  obtain ⟨t, rfl⟩ := hs
  rw [List.map_append, List.sum_append]
  exact Nat.le_add_left _ _

omit [DecidableEq A] in
theorem balance_le_total (s : State A) (a : A) : s.balance a ≤ s.total :=
  Finset.single_le_sum (fun _ _ => Nat.zero_le _) (Finset.mem_univ a)

omit [DecidableEq A] [Fintype A] in
theorem amount_le_carried {m : Relay A} (hm : m ∈ c.inFlight) :
    m.amount ≤ c.carried Relay.amount :=
  Multiset.single_le_sum (fun _ _ => Nat.zero_le _) _ (Multiset.mem_map_of_mem _ hm)

/-- Within bounds, the two contracts do the same. -/
theorem Bounded.translates (hb : Bounded s₀ ks) :
    (machine p).Translates Erc20.machine State.toBigint Call.toBigint Relay.toBigint
      ⟨s₀, 0⟩ ks where
  call := by
    intro h c k hr hks
    have htotal := total_le hr
    have hsupply := hb.supply
    have hminted := minted_sum_le hks
    rw [List.map_cons, List.sum_cons] at hminted
    cases k with
    | transfer a dest amount => exact transfer_agrees a dest amount c.state
    | mint a value =>
      have hbalance := balance_le_total c.state a
      change value + _ ≤ _ at hminted
      exact mint_agrees (by omega)
    | transferN a recipients => exact transferN_agrees (hb.batch (hks.subset List.mem_cons_self))
  relay := by
    rintro h c ⟨dest, amount⟩ hr hks hm
    have htotal := total_le hr
    have hsupply := hb.supply
    have hminted := minted_sum_le hks
    have hbalance := balance_le_total c.state dest
    have hamount := amount_le_carried hm
    change amount ≤ _ at hamount
    exact credit_agrees (by omega)

/-- **Within bounds, the two contracts have the same runs**, event by event and with the same
results, whatever the runtime does out of range. If the initial balances and all that the calls mint
fit into the type, and so does the sum of every batch, every run is translated to a run of
`ERC20.prd`; and every run of `ERC20.prd` with the translated calls is the translation of a run. -/
theorem bounded_runs_agree (p : Overflow) (hb : Bounded s₀ ks) :
    (∀ h c, (machine p).Run Anything ⟨s₀, 0⟩ h c → calls h = ks →
      Erc20.machine.Run Anything ⟨s₀.toBigint, 0⟩
        (h.map (Event.map Call.toBigint Relay.toBigint)) (c.map State.toBigint Relay.toBigint)) ∧
    ∀ h' c', Erc20.machine.Run Anything ⟨s₀.toBigint, 0⟩ h' c' →
      calls h' = ks.map Call.toBigint →
      ∃ h c, (machine p).Run Anything ⟨s₀, 0⟩ h c ∧ calls h = ks ∧
        h' = h.map (Event.map Call.toBigint Relay.toBigint) ∧
        c' = c.map State.toBigint Relay.toBigint := by
  have ht := hb.translates (p := p)
  refine ⟨fun h c hr hks => ht.run hr (hks ▸ List.suffix_rfl), fun h' c' hr hks => ?_⟩
  obtain ⟨h, c, hrun, rfl, rfl, -⟩ :=
    ht.exists_run Call.toBigint_injective hr (hks ▸ List.suffix_rfl)
  rw [calls_map] at hks
  exact ⟨h, c, hrun, List.map_injective_iff.mpr Call.toBigint_injective hks, rfl, rfl⟩

/-- A mint, a batch and a delivery, on a runtime that wraps around. -/
theorem bounded_runs_agree_batch : ∃ h c,
    (machine .wrap).Run Anything ⟨⟨fun _ : Fin 2 => 7⟩, 0⟩ h c ∧
      calls h = [.transferN 0 [⟨1, 4⟩, ⟨0, 5⟩], .mint 0 3] ∧
      Erc20.machine.Run Anything ⟨State.toBigint ⟨fun _ : Fin 2 => 7⟩, 0⟩
        (h.map (Event.map Call.toBigint Relay.toBigint))
        (c.map State.toBigint Relay.toBigint) := by
  obtain ⟨⟨h, c⟩, hx, hcalls⟩ :
      ∃ r ∈ (machine .wrap).exec Anything ⟨⟨fun _ : Fin 2 => 7⟩, 0⟩
        [.call (.mint 0 3), .call (.transferN 0 [⟨1, 4⟩, ⟨0, 5⟩]), .deliver (.credit 1 4)],
        calls r.1 = [.transferN 0 [⟨1, 4⟩, ⟨0, 5⟩], .mint 0 3] := by decide
  have hr := Machine.exec_run hx
  have hb : Bounded (⟨fun _ : Fin 2 => 7⟩ : State (Fin 2))
      [.transferN 0 [⟨1, 4⟩, ⟨0, 5⟩], .mint 0 3] := by
    refine ⟨by decide, ?_⟩
    intro self recipients hmem
    simp only [List.mem_cons, List.not_mem_nil, or_false, reduceCtorEq] at hmem
    cases hmem
    decide
  exact ⟨h, c, hr, hcalls, (bounded_runs_agree .wrap hb).1 h c hr hcalls⟩

end Bounds

/-! ### A batch out of range -/

theorem addU_wrap (w a b : ℕ) : addU .wrap w a b = .ok ((a + b) % 2 ^ w) := by
  rw [addU]
  split
  · rw [Nat.mod_eq_of_lt ‹_›]
  · rfl

omit [DecidableEq A] in
theorem sumAmounts_wrap {recipients : List (Payment A)} {t : ℕ} (ht : t < 2 ^ 256) :
    sumAmounts .wrap recipients t = .ok ((t + totalAmount recipients) % 2 ^ 256) := by
  induction recipients generalizing t with
  | nil => rw [sumAmounts, totalAmount_nil, Nat.add_zero, Nat.mod_eq_of_lt ht]
  | cons q qs ih =>
    rw [sumAmounts, if_pos (Nat.zero_le _), addU_wrap, ok_bind,
      ih (Nat.mod_lt _ (Nat.two_pow_pos 256)), totalAmount_cons, Nat.mod_add_mod, Nat.add_assoc]

omit [DecidableEq A] in
theorem sumAmounts_trap {recipients : List (Payment A)} {t : ℕ} (ht : t < 2 ^ 256)
    (hover : 2 ^ 256 ≤ t + totalAmount recipients) :
    sumAmounts .trap recipients t = .error .overflow := by
  induction recipients generalizing t with
  | nil => exact absurd hover (Nat.not_le.mpr ht)
  | cons q qs ih =>
    rw [totalAmount_cons, ← Nat.add_assoc] at hover
    rw [sumAmounts, if_pos (Nat.zero_le _)]
    by_cases hq : t + q.amount < 2 ^ 256
    · rw [addU_of_lt hq, ok_bind]
      exact ih hq hover
    · rw [addU, if_neg hq, error_bind]

/-- **A batch out of range.** Where the sum of a batch does not fit into the type, `ERC20.prd` finds
that the balance does not cover it. Here, a runtime that traps fails the call. On one that wraps
around, the balance need only cover the remainder: the call returns true, and the balances and the
amounts in flight are more than before, by the part of the sum that was lost. -/
theorem overflowing_batch [Fintype A] {s : State A} {a : A} {recipients : List (Payment A)}
    (hrange : s.balance a < 2 ^ 256) (hover : 2 ^ 256 ≤ totalAmount recipients) :
    Erc20.machine.call (Call.transferN a recipients).toBigint s.toBigint =
        .ok ⟨s.toBigint, some false, []⟩ ∧
      (machine .trap).call (.transferN a recipients) s = .error .overflow ∧
      (totalAmount recipients % 2 ^ 256 ≤ s.balance a →
        ∃ eff, (machine .wrap).call (.transferN a recipients) s = .ok eff ∧
          eff.value = some true ∧
          eff.state.total + (eff.relays.map Relay.amount).sum =
            s.total + 2 ^ 256 * (totalAmount recipients / 2 ^ 256)) := by
  refine ⟨?_, ?_, fun hle => ?_⟩
  · refine (transferN_toBigint a recipients s).trans (if_neg ?_)
    exact Nat.not_le.mpr (Nat.lt_of_lt_of_le hrange hover)
  · change transferN .trap a recipients s = _
    rw [transferN, sumAmounts_trap (Nat.two_pow_pos 256) (by rwa [Nat.zero_add]), error_bind]
  · have hsum : sumAmounts .wrap recipients 0 = .ok (totalAmount recipients % 2 ^ 256) := by
      rw [sumAmounts_wrap (Nat.two_pow_pos 256), Nat.zero_add]
    refine ⟨_, transferN_of_le hsum hle, rfl, ?_⟩
    have hdebit := total_debit hle
    have hsplit := Nat.mod_add_div (totalAmount recipients) (2 ^ 256)
    dsimp only
    rw [sum_amount_credits]
    omega

/-- Two payments of half the range, from an account with nothing. -/
theorem overflowing_batch_halves :
    totalAmount [(⟨0, 2 ^ 255⟩ : Payment (Fin 2)), ⟨1, 2 ^ 255⟩] = 2 ^ 256 ∧
      ∃ eff, (machine .wrap).call (.transferN 0 [⟨0, 2 ^ 255⟩, ⟨1, 2 ^ 255⟩])
          ⟨fun _ : Fin 2 => 0⟩ = .ok eff ∧
        eff.value = some true ∧
        eff.state.total + (eff.relays.map Relay.amount).sum =
          State.total ⟨fun _ : Fin 2 => 0⟩ +
            2 ^ 256 * (totalAmount [(⟨0, 2 ^ 255⟩ : Payment (Fin 2)), ⟨1, 2 ^ 255⟩] / 2 ^ 256) :=
  ⟨by decide, (overflowing_batch (by decide) (by decide)).2.2 (by decide)⟩

end Erc20Uint256

end Preda

end RelayContracts
