import RelayContracts.FixedWidth
import RelayContracts.Ledger
import RelayContracts.RelayMachine
import Mathlib.Algebra.Order.BigOperators.Group.List

/-!
# The PREDA ERC20 contract

The token contract of `ERC20.prd`. Balances are `bigint`, unbounded and signed, and live in the
scope of their address. A payment is split: the sender's balance is debited in the call, and the
receiver's is credited in a relay.

`transfer` compares the amount with the balance and nothing else; `mint` and `transfer_n` also
assert that their amounts are not negative. What follows from the difference:

* `transfer_n` and `mint` can not overdraw, and a run stays solvent exactly if no `transfer` is
  called with a negative amount (`solvent_iff`);
* conservation does not depend on signs, and holds in every run (`erc20_conserved`);
* where no amount is negative, a batch is worth its transfers (`transferN_eq_transfers`).
-/

namespace RelayContracts

namespace Preda

namespace Erc20

open RelayMachine

/-- `struct payment`. -/
structure Payment (A : Type) where
  /-- The field `to`: the receiver. -/
  dest : A
  /-- The amount, a `bigint`. -/
  amount : ℤ
  deriving DecidableEq, Repr

/-- The state of the contract. -/
structure State (A : Type) where
  /-- `@address bigint balance`. -/
  balance : A → ℤ

/-- The exported functions, with the address they are called at. -/
inductive Call (A : Type) where
  /-- `transfer(to, amount)`. -/
  | transfer (self dest : A) (amount : ℤ)
  /-- `mint(value)`. -/
  | mint (self : A) (value : ℤ)
  /-- `transfer_n(recipients)`. -/
  | transferN (self : A) (recipients : List (Payment A))
  deriving DecidableEq, Repr

/-- The relayed blocks. `transfer` and `transfer_n` relay the same one. -/
inductive Relay (A : Type) where
  /-- `relay@to`: `balance += amount`. -/
  | credit (dest : A) (amount : ℤ)
  deriving DecidableEq, Repr

variable {A : Type}

/-- The amount a relay carries. -/
def Relay.amount : Relay A → ℤ
  | .credit _ amount => amount

section Functions

variable [DecidableEq A]

/-- `transfer(to, amount)`. -/
def transfer (self dest : A) (amount : ℤ) (s : State A) :
    Except Fault (Effect (State A) (Relay A) (Option Bool)) :=
  if s.balance self ≥ amount then
    .ok ⟨⟨Function.update s.balance self (s.balance self - amount)⟩, some true,
      [.credit dest amount]⟩
  else .ok ⟨s, some false, []⟩

/-- `mint(value)`. -/
def mint (self : A) (value : ℤ) (s : State A) :
    Except Fault (Effect (State A) (Relay A) (Option Bool)) :=
  if value ≥ 0 then .ok ⟨⟨Function.update s.balance self (s.balance self + value)⟩, none, []⟩
  else .error .assertion

/-- The first loop of `transfer_n`, from a total so far: check every amount and sum them up. -/
def sumAmounts : List (Payment A) → ℤ → Except Fault ℤ
  | [], total => .ok total
  | p :: ps, total =>
    if p.amount ≥ 0 then sumAmounts ps (total + p.amount) else .error .assertion

/-- The second loop of `transfer_n`: one relay for every positive amount. -/
def credits (recipients : List (Payment A)) : List (Relay A) :=
  recipients.filterMap fun p => if p.amount > 0 then some (.credit p.dest p.amount) else none

/-- `transfer_n(recipients)`. -/
def transferN (self : A) (recipients : List (Payment A)) (s : State A) :
    Except Fault (Effect (State A) (Relay A) (Option Bool)) := do
  let total ← sumAmounts recipients 0
  if total ≤ s.balance self then
    .ok ⟨⟨Function.update s.balance self (s.balance self - total)⟩, some true, credits recipients⟩
  else .ok ⟨s, some false, []⟩

/-- The relayed block. -/
def credit (dest : A) (amount : ℤ) (s : State A) :
    Except Fault (Effect (State A) (Relay A) (Option Bool)) :=
  .ok ⟨⟨Function.update s.balance dest (s.balance dest + amount)⟩, none, []⟩

/-- The contract as a relay machine. -/
def machine : Machine (State A) (Call A) (Relay A) (Option Bool) Fault where
  call
    | .transfer self dest amount => transfer self dest amount
    | .mint self value => mint self value
    | .transferN self recipients => transferN self recipients
  relay
    | .credit dest amount => credit dest amount

end Functions

/-! ### The loops of `transfer_n` -/

/-- What a list of payments amounts to. -/
def totalAmount (recipients : List (Payment A)) : ℤ := (recipients.map Payment.amount).sum

/-- The first loop succeeds if no amount is negative, with the sum. -/
theorem sumAmounts_eq_ok {recipients : List (Payment A)} {t₀ t : ℤ} :
    sumAmounts recipients t₀ = .ok t ↔
      (∀ p ∈ recipients, 0 ≤ p.amount) ∧ t = t₀ + totalAmount recipients := by
  induction recipients generalizing t₀ with
  | nil => simp [sumAmounts, totalAmount, eq_comm]
  | cons p ps ih =>
    rw [sumAmounts]
    by_cases hp : p.amount ≥ 0
    · rw [if_pos hp, ih]
      simp [totalAmount, hp, add_assoc]
    · rw [if_neg hp]
      constructor
      · rintro ⟨⟩
      · rintro ⟨hall, -⟩
        exact absurd (hall p List.mem_cons_self) hp

/-- The first loop fails at an amount that is negative. -/
theorem sumAmounts_of_neg {recipients : List (Payment A)} {p : Payment A} (hp : p ∈ recipients)
    (hneg : p.amount < 0) {t₀ : ℤ} : sumAmounts recipients t₀ = .error .assertion := by
  induction recipients generalizing t₀ with
  | nil => cases hp
  | cons q ps ih =>
    rw [sumAmounts]
    by_cases hq : q.amount ≥ 0
    · rw [if_pos hq]
      rcases List.mem_cons.mp hp with rfl | hp
      · omega
      · exact ih hp
    · rw [if_neg hq]

theorem credits_cons (p : Payment A) (ps : List (Payment A)) :
    credits (p :: ps) =
      if p.amount > 0 then .credit p.dest p.amount :: credits ps else credits ps := by
  rw [credits, List.filterMap_cons]
  by_cases hp : p.amount > 0
  · rw [if_pos hp, if_pos hp]
    rfl
  · rw [if_neg hp, if_neg hp]
    rfl

/-- The relays of the second loop carry what the first loop summed up. -/
theorem sum_amount_credits {recipients : List (Payment A)}
    (hnonneg : ∀ p ∈ recipients, 0 ≤ p.amount) :
    ((credits recipients).map Relay.amount).sum = totalAmount recipients := by
  induction recipients with
  | nil => rfl
  | cons p ps ih =>
    obtain ⟨hp, hps⟩ := List.forall_mem_cons.mp hnonneg
    have ih := ih hps
    rw [credits_cons, totalAmount, List.map_cons, List.sum_cons, ← totalAmount, ← ih]
    by_cases hpos : p.amount > 0
    · rw [if_pos hpos, List.map_cons, List.sum_cons]
      rfl
    · have h0 : p.amount = 0 := by omega
      rw [if_neg hpos, h0, zero_add]

theorem amount_pos_of_mem_credits {recipients : List (Payment A)} {m : Relay A}
    (hm : m ∈ credits recipients) : 0 < m.amount := by
  obtain ⟨p, -, hp⟩ := List.mem_filterMap.mp hm
  split at hp
  · cases hp
    assumption
  · cases hp

/-! ### What a successful call did -/

variable [DecidableEq A]

/-- What a successful call did, at a state `s`. -/
inductive Called (s : State A) : Call A → Effect (State A) (Relay A) (Option Bool) → Prop
  /-- `transfer` debited the sender and relayed the credit. -/
  | transfer {a dest : A} {amount : ℤ} (hle : amount ≤ s.balance a) :
      Called s (.transfer a dest amount)
        ⟨⟨Function.update s.balance a (s.balance a - amount)⟩, some true, [.credit dest amount]⟩
  /-- `transfer` found the balance too small, and changed nothing. -/
  | transferFalse {a dest : A} {amount : ℤ} (hlt : s.balance a < amount) :
      Called s (.transfer a dest amount) ⟨s, some false, []⟩
  /-- `mint` credited the caller. -/
  | mint {a : A} {value : ℤ} (hnonneg : 0 ≤ value) :
      Called s (.mint a value) ⟨⟨Function.update s.balance a (s.balance a + value)⟩, none, []⟩
  /-- `transfer_n` debited the sum and relayed the credits. -/
  | transferN {a : A} {recipients : List (Payment A)}
      (hnonneg : ∀ p ∈ recipients, 0 ≤ p.amount) (hle : totalAmount recipients ≤ s.balance a) :
      Called s (.transferN a recipients)
        ⟨⟨Function.update s.balance a (s.balance a - totalAmount recipients)⟩, some true,
          credits recipients⟩
  /-- `transfer_n` found the balance too small, and changed nothing. -/
  | transferNFalse {a : A} {recipients : List (Payment A)}
      (hnonneg : ∀ p ∈ recipients, 0 ≤ p.amount) (hlt : s.balance a < totalAmount recipients) :
      Called s (.transferN a recipients) ⟨s, some false, []⟩

theorem called_of_ok {s : State A} {k : Call A} {eff : Effect (State A) (Relay A) (Option Bool)}
    (h : machine.call k s = .ok eff) : Called s k eff := by
  cases k with
  | transfer a dest amount =>
    have h : transfer a dest amount s = .ok eff := h
    rw [transfer] at h
    split at h
    · cases h
      exact .transfer ‹_›
    · cases h
      exact .transferFalse (lt_of_not_ge ‹_›)
  | mint a value =>
    have h : mint a value s = .ok eff := h
    rw [mint] at h
    split at h
    · cases h
      exact .mint ‹_›
    · cases h
  | transferN a recipients =>
    obtain ⟨total, hsum, h⟩ := exists_of_bind_eq_ok (show transferN a recipients s = .ok eff from h)
    obtain ⟨hnonneg, htotal⟩ := sumAmounts_eq_ok.mp hsum
    rw [zero_add] at htotal
    subst htotal
    split at h
    · cases h
      exact .transferN hnonneg ‹_›
    · cases h
      exact .transferNFalse hnonneg (lt_of_not_ge ‹_›)

section Runs

variable {s₀ : State A} {h : List (Event (Call A) (Relay A) (Option Bool) Fault)}
  {c : Config (State A) (Relay A)}
  {G : List (Event (Call A) (Relay A) (Option Bool) Fault) → Config (State A) (Relay A) →
    Event (Call A) (Relay A) (Option Bool) Fault → Prop}

/-! ### Conservation -/

/-- What a call brings in if it does not fail. -/
def Call.minted : Call A → ℤ
  | .mint _ value => value
  | _ => 0

/-- What a `mint` that did not fail has brought in. -/
def minted : Event (Call A) (Relay A) (Option Bool) Fault → ℤ
  | .call k (.ok _) => k.minted
  | _ => 0

/-- A call moves the sender's debit into flight, and brings in what it mints. -/
theorem Called.balanced [Fintype A] {s : State A} {k : Call A}
    {eff : Effect (State A) (Relay A) (Option Bool)} (hk : Called s k eff) :
    ∑ a, eff.state.balance a + (eff.relays.map Relay.amount).sum =
      ∑ a, s.balance a + k.minted := by
  cases hk with
  | @transfer a dest amount hle =>
    rw [← sum_update_debit s.balance (sub_add_cancel (s.balance a) amount)]
    simp [Relay.amount, Call.minted]
  | transferFalse => simp [Call.minted]
  | mint => simp [sum_update_credit, Call.minted]
  | @transferN a recipients hnonneg hle =>
    rw [← sum_update_debit s.balance (sub_add_cancel (s.balance a) (totalAmount recipients)),
      sum_amount_credits hnonneg]
    simp [Call.minted]
  | transferNFalse => simp [Call.minted]

/-- The initial balances and what was minted are the balances and the amounts in flight. -/
theorem balances_add_inFlight [Fintype A] (hr : machine.Run G ⟨s₀, 0⟩ h c) :
    ∑ a, c.state.balance a + c.carried Relay.amount = ∑ a, s₀.balance a + booked minted h := by
  have hbal := hr.conserved (fun s => ∑ a, s.balance a) Relay.amount (fun _ => 0) minted
    ?_ ?_ ?_ ?_
  · simpa [booked] using hbal
  · intro h c k eff _ hk
    rw [add_zero]
    exact (called_of_ok hk).balanced
  · intro s k f _
    rfl
  · rintro s ⟨dest, amount⟩ eff ⟨⟩
    simp [sum_update_credit, minted, Relay.amount]
  · rintro s ⟨dest, amount⟩ f ⟨⟩

/-- A call that returns false changes nothing and relays nothing. -/
theorem eq_of_returned_false {k : Call A} {c' : Config (State A) (Relay A)}
    (hs : machine.Step c (.call k (.ok (some false))) c') : c' = c := by
  generalize hv : (Event.call k (.ok (some false)) : Event (Call A) (Relay A) _ Fault) = e at hs
  cases hs with
  | @callOk k' eff hk =>
    have hval : eff.value = some false := by
      injection hv with _ hv
      exact (Except.ok.inj hv).symm
    cases called_of_ok hk with
    | transferFalse => simp
    | transferNFalse => simp
    | transfer => cases hval
    | mint => cases hval
    | transferN => cases hval
  | _ => cases hv

/-- **Conservation.** In every state of every run, the balances and the amounts in flight together
are the initial balances and what was minted; and a call that returns false or fails changes no
balance and puts nothing in flight. -/
theorem erc20_conserved [Fintype A] (hr : machine.Run Anything ⟨s₀, 0⟩ h c) :
    (∑ a, c.state.balance a + c.carried Relay.amount = ∑ a, s₀.balance a + booked minted h) ∧
    ∀ k r c', r = .ok (some false) ∨ (∃ f, r = .error f) → machine.Step c (.call k r) c' →
      c' = c := by
  refine ⟨balances_add_inFlight hr, ?_⟩
  rintro k r c' (rfl | ⟨f, rfl⟩) hs
  · exact eq_of_returned_false hs
  · cases hs
    rfl

/-- A mint, a transfer that is on its way and one that is too large. -/
theorem erc20_conserved_transfer : ∃ h c, machine.Run Anything ⟨⟨fun _ : Fin 2 => 1⟩, 0⟩ h c ∧
    c.inFlight = {.credit 1 4} ∧ booked minted h = 10 ∧
    ∑ a, c.state.balance a + c.carried Relay.amount = ∑ _a : Fin 2, 1 + booked minted h := by
  obtain ⟨⟨h, c⟩, hx, hflight, hminted⟩ :
      ∃ r ∈ machine.exec Anything ⟨⟨fun _ : Fin 2 => 1⟩, 0⟩
        [.call (.mint 0 10), .call (.transfer 0 1 4), .call (.transfer 1 0 2)],
        r.2.inFlight = {.credit 1 4} ∧ booked minted r.1 = 10 := by decide
  have hr := Machine.exec_run hx
  exact ⟨h, c, hr, hflight, hminted, (erc20_conserved hr).1⟩

/-! ### Solvency -/

/-- No balance is negative, and no amount in flight is. -/
def Solvent (c : Config (State A) (Relay A)) : Prop :=
  (∀ a, 0 ≤ c.state.balance a) ∧ ∀ m ∈ c.inFlight, 0 ≤ m.amount

/-- A balance stays non-negative if what it is changed to is. -/
theorem forall_update_nonneg {f : A → ℤ} (hf : ∀ a, 0 ≤ f a) {a : A} {v : ℤ} (hv : 0 ≤ v) (b : A) :
    0 ≤ Function.update f a v b := by
  by_cases hb : b = a
  · rwa [hb, Function.update_self]
  · rw [Function.update_of_ne hb]
    exact hf b

/-- A call keeps a solvent state solvent, unless it is a `transfer` of a negative amount. -/
theorem Solvent.call (hc : Solvent c) {k : Call A}
    {eff : Effect (State A) (Relay A) (Option Bool)} (hk : Called c.state k eff)
    (hnonneg : ∀ a dest amount, k = .transfer a dest amount → 0 ≤ amount) :
    Solvent ⟨eff.state, c.inFlight + eff.relays⟩ := by
  obtain ⟨hbal, hflight⟩ := hc
  have hrelays : (∀ m ∈ eff.relays, 0 ≤ m.amount) →
      ∀ m ∈ c.inFlight + (eff.relays : Multiset (Relay A)), 0 ≤ m.amount := by
    intro hout m hm
    rcases Multiset.mem_add.mp hm with hm | hm
    · exact hflight m hm
    · exact hout m (Multiset.mem_coe.mp hm)
  cases hk with
  | @transfer a dest amount hle =>
    refine ⟨forall_update_nonneg hbal (by omega), hrelays fun m hm => ?_⟩
    obtain rfl := List.mem_singleton.mp hm
    exact hnonneg a dest amount rfl
  | transferFalse => exact ⟨hbal, hrelays (by simp)⟩
  | @mint a value hvalue =>
    have := hbal a
    exact ⟨forall_update_nonneg hbal (by omega), hrelays (by simp)⟩
  | transferN hpay hle =>
    exact ⟨forall_update_nonneg hbal (by omega),
      hrelays fun m hm => (amount_pos_of_mem_credits hm).le⟩
  | transferNFalse => exact ⟨hbal, hrelays (by simp)⟩

theorem Solvent.deliver {s : State A} {dest : A} {amount : ℤ} {rest : Multiset (Relay A)}
    (hc : Solvent ⟨s, .credit dest amount ::ₘ rest⟩) :
    Solvent ⟨⟨Function.update s.balance dest (s.balance dest + amount)⟩, rest⟩ := by
  obtain ⟨hbal, hflight⟩ := hc
  have hamount : 0 ≤ amount := hflight _ (Multiset.mem_cons_self _ _)
  have := hbal dest
  exact ⟨forall_update_nonneg hbal (by dsimp only at this; omega),
    fun m hm => hflight m (Multiset.mem_cons_of_mem hm)⟩

/-- Without a negative `transfer`, a run stays solvent. -/
theorem solvent_of_run (h₀ : ∀ a, 0 ≤ s₀.balance a) (hr : machine.Run G ⟨s₀, 0⟩ h c)
    (hnonneg : ∀ a dest amount, .transfer a dest amount ∈ calls h → 0 ≤ amount) : Solvent c := by
  refine hr.invariant (I := fun h c =>
    (∀ a dest amount, .transfer a dest amount ∈ calls h → 0 ≤ amount) → Solvent c) ?_ ?_ ?_ ?_ ?_
    hnonneg
  · exact fun _ => ⟨h₀, by simp⟩
  · intro h c k eff _ ih _ hk hnonneg
    rw [calls_cons_call] at hnonneg
    refine (ih fun a dest amount hmem => ?_).call (called_of_ok hk) fun a dest amount hk => ?_
    · exact hnonneg a dest amount (List.mem_cons_of_mem _ hmem)
    · exact hnonneg a dest amount (hk ▸ List.mem_cons_self)
  · intro h c k f _ ih _ _ hnonneg
    rw [calls_cons_call] at hnonneg
    exact ih fun a dest amount hmem => hnonneg a dest amount (List.mem_cons_of_mem _ hmem)
  · rintro h s ⟨dest, amount⟩ rest eff _ ih _ ⟨⟩ hnonneg
    rw [Multiset.coe_nil, add_zero]
    exact (ih hnonneg).deliver
  · rintro h s ⟨dest, amount⟩ rest f _ _ _ ⟨⟩

/-- From a solvent state, a `transfer` of a negative amount puts that amount in flight. -/
theorem not_solvent_of_negative {a dest : A} {amount : ℤ} {r : Except Fault (Option Bool)}
    {c' : Config (State A) (Relay A)} (hc : Solvent c) (hneg : amount < 0)
    (hs : machine.Step c (.call (.transfer a dest amount) r) c') : ¬ Solvent c' := by
  intro hc'
  have hbal := hc.1 a
  cases hs with
  | callOk hk =>
    cases called_of_ok hk with
    | transfer =>
      have hmem : Relay.credit dest amount ∈
          c.inFlight + ([.credit dest amount] : List (Relay A)) := by simp
      exact absurd (hc'.2 _ hmem) (not_le.mpr hneg)
    | transferFalse => omega
  | callError hk =>
    have hk : transfer a dest amount c.state = _ := hk
    rw [transfer] at hk
    split at hk <;> cases hk

/-- **When a run is solvent.** From balances that are not negative, every state of a run is solvent
if and only if no `transfer` in it is called with a negative amount. -/
theorem solvent_iff (h₀ : ∀ a, 0 ≤ s₀.balance a) (hr : machine.Run Anything ⟨s₀, 0⟩ h c) :
    (∀ h₁ c₁, h₁ <:+ h → machine.Run Anything ⟨s₀, 0⟩ h₁ c₁ → Solvent c₁) ↔
      ∀ a dest amount, .transfer a dest amount ∈ calls h → 0 ≤ amount := by
  constructor
  · intro hsolvent a dest amount hmem
    by_contra hneg
    obtain ⟨r, hmem⟩ := mem_calls.mp hmem
    obtain ⟨h₂, h₁, heq⟩ := List.append_of_mem hmem
    have hsuf : .call (.transfer a dest amount) r :: h₁ <:+ h := ⟨h₂, heq.symm⟩
    obtain ⟨c', hr'⟩ := hr.of_suffix hsuf
    have hc' := hsolvent _ c' hsuf hr'
    cases hr' with
    | @step _ c₁ _ _ hr₁ hs _ =>
      have hc₁ := hsolvent h₁ c₁ ((List.suffix_cons _ _).trans hsuf) hr₁
      exact not_solvent_of_negative hc₁ (lt_of_not_ge hneg) hs hc'
  · intro hnonneg h₁ c₁ hsuf hr₁
    refine solvent_of_run h₀ hr₁ fun a dest amount hmem => ?_
    obtain ⟨r, hmem⟩ := mem_calls.mp hmem
    exact hnonneg a dest amount (mem_calls.mpr ⟨r, hsuf.subset hmem⟩)

end Runs

/-- A transfer of `-5` from an empty account: the sender gains 5, and the receiver ends at `-5`. -/
theorem overdrawn : ¬ ∀ h c, machine.Run Anything ⟨⟨fun _ : Fin 2 => 0⟩, 0⟩ h c → Solvent c := by
  intro hall
  obtain ⟨⟨h, c⟩, hx, hbal⟩ :
      ∃ r ∈ machine.exec Anything ⟨⟨fun _ : Fin 2 => 0⟩, 0⟩
        [.call (.transfer 0 1 (-5)), .deliver (.credit 1 (-5))],
        r.2.state.balance 1 < 0 := by decide
  exact absurd ((hall h c (Machine.exec_run hx)).1 1) (not_le.mpr hbal)

/-- A transfer and its delivery. -/
theorem solvent_iff_transfer : ∃ h c, machine.Run Anything ⟨⟨fun _ : Fin 2 => 7⟩, 0⟩ h c ∧
    calls h = [.transferN 1 [⟨0, 2⟩, ⟨1, 0⟩], .transfer 0 1 4] ∧
    ∀ h₁ c₁, h₁ <:+ h → machine.Run Anything ⟨⟨fun _ => 7⟩, 0⟩ h₁ c₁ → Solvent c₁ := by
  obtain ⟨⟨h, c⟩, hx, hcalls⟩ :
      ∃ r ∈ machine.exec Anything ⟨⟨fun _ : Fin 2 => 7⟩, 0⟩
        [.call (.transfer 0 1 4), .deliver (.credit 1 4), .call (.transferN 1 [⟨0, 2⟩, ⟨1, 0⟩])],
        calls r.1 = [.transferN 1 [⟨0, 2⟩, ⟨1, 0⟩], .transfer 0 1 4] := by decide
  have hr := Machine.exec_run hx
  refine ⟨h, c, hr, hcalls, (solvent_iff (fun _ => Int.natCast_nonneg 7) hr).mpr ?_⟩
  intro a dest amount hmem
  rw [hcalls] at hmem
  simp only [List.mem_cons, List.not_mem_nil, or_false, reduceCtorEq, false_or] at hmem
  cases hmem
  decide

/-! ### The batch of transfers -/

/-- The relay of a `transfer`. -/
def Payment.credit (p : Payment A) : Relay A := .credit p.dest p.amount

omit [DecidableEq A] in
/-- Without the amounts that are zero, the relays of the single transfers are those of the second
loop. -/
theorem credits_eq_filter {recipients : List (Payment A)}
    (hnonneg : ∀ p ∈ recipients, 0 ≤ p.amount) :
    credits recipients = (recipients.map Payment.credit).filter fun m => m.amount ≠ 0 := by
  induction recipients with
  | nil => rfl
  | cons p ps ih =>
    obtain ⟨hp, hps⟩ := List.forall_mem_cons.mp hnonneg
    rw [credits_cons, ih hps, List.map_cons, List.filter_cons]
    by_cases hpos : p.amount > 0
    · have hne : p.credit.amount ≠ 0 := ne_of_gt hpos
      rw [if_pos hpos, if_pos (decide_eq_true hne)]
      rfl
    · have hzero : p.credit.amount = 0 := show p.amount = 0 by omega
      rw [if_neg hpos, if_neg (by simp [hzero])]

/-- The payments of a batch called as transfers one by one, each of which returns true. -/
def transfers (self : A) (recipients : List (Payment A)) :
    List (Event (Call A) (Relay A) (Option Bool) Fault) :=
  (recipients.map fun p => .call (.transfer self p.dest p.amount) (.ok (some true))).reverse

/-- The transfers debit what they amount to, one after the other. -/
theorem run_transfers (self : A) {recipients : List (Payment A)} {c : Config (State A) (Relay A)}
    (hnonneg : ∀ p ∈ recipients, 0 ≤ p.amount)
    (hle : totalAmount recipients ≤ c.state.balance self) :
    machine.Run Anything c (transfers self recipients)
      ⟨⟨Function.update c.state.balance self (c.state.balance self - totalAmount recipients)⟩,
        c.inFlight + (recipients.map Payment.credit : List (Relay A))⟩ := by
  -- The last event of the run is the last payment, so the induction is from the end of the list.
  induction recipients using List.reverseRecOn with
  | nil =>
    have hsame : Function.update c.state.balance self
        (c.state.balance self - totalAmount ([] : List (Payment A))) = c.state.balance := by
      simp [totalAmount]
    rw [hsame, List.map_nil, Multiset.coe_nil, add_zero]
    exact .nil
  | append_singleton ps p ih =>
    have htotal : totalAmount (ps ++ [p]) = totalAmount ps + p.amount := by simp [totalAmount]
    have hp : 0 ≤ p.amount := hnonneg p (by simp)
    have hrun := ih (fun q hq => hnonneg q (List.mem_append_left _ hq)) (by omega)
    have htransfers : transfers self (ps ++ [p]) =
        .call (.transfer self p.dest p.amount) (.ok (some true)) :: transfers self ps := by
      simp [transfers]
    set s : State A :=
      ⟨Function.update c.state.balance self (c.state.balance self - totalAmount ps)⟩ with hs
    have hself : s.balance self = c.state.balance self - totalAmount ps := Function.update_self ..
    have hcall : machine.call (.transfer self p.dest p.amount) s =
        .ok ⟨⟨Function.update c.state.balance self
          (c.state.balance self - totalAmount (ps ++ [p]))⟩, some true, [p.credit]⟩ := by
      show transfer self p.dest p.amount s = _
      rw [transfer, if_pos (show s.balance self ≥ p.amount by omega), hself, hs,
        Function.update_idem, htotal, sub_sub]
      rfl
    have hstep := hrun.step (.callOk hcall) trivial
    rw [htransfers, List.map_append, ← Multiset.coe_add, ← add_assoc]
    exact hstep

/-- **`transfer_n` is the batch of its transfers.** If no amount is negative and the balance covers
the sum, it returns true, and leaves the balances and, up to amounts of zero, the relays that the
transfers leave when they are called one by one and nothing is delivered in between; they return
true as well. If the balance does not cover the sum, it returns false, changes nothing and relays
nothing. If an amount is negative, it fails, and nothing has changed. -/
theorem transferN_eq_transfers (self : A) (recipients : List (Payment A))
    (c : Config (State A) (Relay A)) :
    ((∀ p ∈ recipients, 0 ≤ p.amount) → totalAmount recipients ≤ c.state.balance self →
      ∃ s' out out',
        machine.call (.transferN self recipients) c.state = .ok ⟨s', some true, out⟩ ∧
        machine.Run Anything c (transfers self recipients)
          ⟨s', c.inFlight + (out' : List (Relay A))⟩ ∧
        out = out'.filter fun m => m.amount ≠ 0) ∧
    ((∀ p ∈ recipients, 0 ≤ p.amount) → c.state.balance self < totalAmount recipients →
      machine.call (.transferN self recipients) c.state = .ok ⟨c.state, some false, []⟩) ∧
    ((∃ p ∈ recipients, p.amount < 0) →
      machine.call (.transferN self recipients) c.state = .error .assertion ∧
      ∀ r c', machine.Step c (.call (.transferN self recipients) r) c' → c' = c) := by
  have hcall : machine.call (.transferN self recipients) c.state =
      transferN self recipients c.state := rfl
  rw [hcall]
  refine ⟨fun hnonneg hle => ?_, fun hnonneg hlt => ?_, ?_⟩
  · refine ⟨_, credits recipients, recipients.map Payment.credit, ?_,
      run_transfers self hnonneg hle, credits_eq_filter hnonneg⟩
    rw [transferN, sumAmounts_eq_ok.mpr ⟨hnonneg, rfl⟩, ok_bind, zero_add, if_pos hle]
  · rw [transferN, sumAmounts_eq_ok.mpr ⟨hnonneg, rfl⟩, ok_bind, zero_add,
      if_neg (not_le.mpr hlt)]
  · rintro ⟨p, hp, hneg⟩
    have herror : transferN self recipients c.state = .error .assertion := by
      rw [transferN, sumAmounts_of_neg hp hneg, error_bind]
    refine ⟨herror, fun r c' hstep => ?_⟩
    cases hstep with
    | callOk hk => cases herror.symm.trans hk
    | callError hk => rfl

/-- A payment of zero among two others, from a balance of `9`. -/
theorem transferN_eq_transfers_three : ∃ s' : State (Fin 2), ∃ out out',
    machine.call (.transferN 0 [⟨1, 4⟩, ⟨0, 0⟩, ⟨1, 5⟩]) ⟨fun _ => 9⟩ =
      .ok ⟨s', some true, out⟩ ∧
    machine.Run Anything ⟨⟨fun _ => 9⟩, 0⟩ (transfers 0 [⟨1, 4⟩, ⟨0, 0⟩, ⟨1, 5⟩])
      ⟨s', 0 + (out' : List (Relay (Fin 2)))⟩ ∧
    out = out'.filter fun m => m.amount ≠ 0 :=
  (transferN_eq_transfers 0 [⟨1, 4⟩, ⟨0, 0⟩, ⟨1, 5⟩] ⟨⟨fun _ => 9⟩, 0⟩).1 (by decide) (by decide)

end Erc20

end Preda

end RelayContracts
