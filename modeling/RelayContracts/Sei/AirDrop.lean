import RelayContracts.Ledger
import RelayContracts.Solidity.Payments
import RelayContracts.Synchronous

/-!
# The Sei AirDrop contract

The contract of `AirDrop.sol` among the Sei contracts, where a call is executed in one piece: the
payments are credited inside the call, and a call that reverts changes nothing.

A list of batches is executed by `runAll`; `machine` has all public functions. None of them looks at
`msg.sender`. `no_decrease_iff` says for which calls this makes a difference: those that take
something from an address other than the caller's. `transferN_exact` says what a batch does, in
which order it can fail, and that nothing is left of one that does.

The event is not emitted by any function.
-/

namespace RelayContracts

namespace Sei

namespace AirDrop

open RelayMachine Solidity

/-- The state of the contract. -/
structure State (A : Type) where
  /-- `mapping(address=>uint) balance`. -/
  balance : A → ℕ

variable {A : Type} [DecidableEq A]

/-- `_deposit(_scope, amount)`. -/
def deposit (scope : A) (amount : ℕ) (s : State A) : Except Fault (State A) := do
  let v ← addU .trap 256 (s.balance scope) amount
  .ok ⟨Function.update s.balance scope v⟩

/-- The second loop of `transfer_n`: credit every positive amount. -/
def depositAll : List (Payment A) → State A → Except Fault (State A)
  | [], s => .ok s
  | p :: ps, s =>
    if p.amount > 0 then do
      let s ← deposit p.dest p.amount s
      depositAll ps s
    else depositAll ps s

/-- `transfer_n(_scope, recipients)`. -/
def transferN (t : Batch A) (s : State A) : Except Fault (Bool × State A) := do
  let total ← sumAmounts t.recipients 0
  if total ≤ s.balance t.scope then do
    let v ← subU (s.balance t.scope) total
    let s ← depositAll t.recipients ⟨Function.update s.balance t.scope v⟩
    .ok (true, s)
  else .ok (false, s)

/-- One transaction. A call that reverts leaves the state as it was. -/
def transact (t : Batch A) (s : State A) : Except Fault Bool × State A :=
  match transferN t s with
  | .ok (b, s') => (.ok b, s')
  | .error f => (.error f, s)

/-- Transactions one after the other, with what they returned. -/
def runAll : List (Batch A) → State A → List (Except Fault Bool) × State A
  | [], s => ([], s)
  | t :: ts, s =>
    let (r, s') := transact t s
    let (rs, s'') := runAll ts s'
    (r :: rs, s'')

/-- The public functions. -/
inductive Call (A : Type) where
  /-- `transfer_n(_scope, recipients)`. -/
  | transferN (t : Batch A)
  /-- `_deposit(_scope, amount)`. -/
  | deposit (scope : A) (amount : ℕ)
  /-- `get_balance(_scope)`. -/
  | getBalance (scope : A)
  deriving DecidableEq, Repr

/-- What a function returns. -/
inductive Value where
  /-- The function has no result. -/
  | nothing
  /-- A `bool`. -/
  | bool (b : Bool)
  /-- A `uint`. -/
  | uint (n : ℕ)
  deriving DecidableEq, Repr

/-- The contract as a machine without relays. -/
def machine : Machine (State A) (Call A) Empty Value Fault where
  call
    | .transferN t => fun s => do
      let (b, s) ← transferN t s
      .ok ⟨s, .bool b, []⟩
    | .deposit scope amount => fun s => do
      let s ← deposit scope amount s
      .ok ⟨s, .nothing, []⟩
    | .getBalance scope => fun s => .ok ⟨s, .uint (s.balance scope), []⟩
  relay m := m.elim

/-- The state a deployment starts from. -/
def empty : State A := ⟨fun _ => 0⟩

section Affordable

variable [Fintype A]

omit [DecidableEq A] in
theorem balance_le_sum (s : State A) (a : A) : s.balance a ≤ ∑ b, s.balance b :=
  Finset.single_le_sum (fun _ _ => Nat.zero_le _) (Finset.mem_univ a)

/-- The second loop credits every receiver, if everything together fits. -/
theorem exists_depositAll (ps : List (Payment A)) {s : State A}
    (hfit : ∑ a, s.balance a + totalAmount ps < 2 ^ 256) :
    ∃ s', depositAll ps s = .ok s' ∧ ∀ a, s'.balance a = s.balance a + received a ps := by
  induction ps generalizing s with
  | nil => exact ⟨s, rfl, fun a => rfl⟩
  | cons p ps ih =>
    rw [totalAmount_cons] at hfit
    rw [depositAll]
    by_cases hpos : p.amount > 0
    · have hle := balance_le_sum s p.dest
      have hsum := sum_update_credit s.balance p.dest p.amount
      rw [if_pos hpos, deposit, addU_of_lt (by omega)]
      obtain ⟨s', hs', hbal⟩ := @ih
        ⟨Function.update s.balance p.dest (s.balance p.dest + p.amount)⟩ (by dsimp only; omega)
      refine ⟨s', hs', fun a => ?_⟩
      have hcredit := update_credit s.balance p.dest p.amount a
      rw [hbal, received_cons, ← Nat.add_assoc, ← hcredit]
    · obtain ⟨s', hs', hbal⟩ := @ih s (by omega)
      rw [if_neg hpos]
      refine ⟨s', hs', fun a => ?_⟩
      have h0 : p.amount = 0 := by omega
      rw [hbal, received_cons, h0, ite_self, Nat.zero_add]

/-- **A batch that can be paid for** is paid, and moves exactly its payments. -/
theorem exists_transferN (t : Batch A) {s : State A} (hsum : ∑ a, s.balance a < 2 ^ 256)
    (hle : totalAmount t.recipients ≤ s.balance t.scope) :
    ∃ s', transferN t s = .ok (true, s') ∧
      ∀ a, s'.balance a + t.paid a = s.balance a + t.received a := by
  have hbal := balance_le_sum s t.scope
  have htotal : sumAmounts t.recipients 0 = .ok (totalAmount t.recipients) := by
    rw [sumAmounts_eq_ok (Nat.two_pow_pos 256), Nat.zero_add]
    exact ⟨by omega, rfl⟩
  have hdebit : s.balance t.scope - totalAmount t.recipients + totalAmount t.recipients =
      s.balance t.scope := Nat.sub_add_cancel hle
  have hrest := sum_update_debit s.balance hdebit
  obtain ⟨s', hs', hcredit⟩ := exists_depositAll t.recipients
    (s := ⟨Function.update s.balance t.scope (s.balance t.scope - totalAmount t.recipients)⟩)
    (by dsimp only; omega)
  refine ⟨s', ?_, fun a => ?_⟩
  · simp only [transferN, htotal, bind, Except.bind, if_pos hle, subU_of_le hle, hs']
  · have hdebit := update_debit s.balance hdebit a
    rw [hcredit a, Batch.received, Batch.paid]
    dsimp only
    omega

/-- **Batches that can be paid for,** one after the other: every call returns true, and every
balance moves by exactly what its batches take and bring. -/
theorem exists_runAll {ts : List (Batch A)} {s : State A} (hsum : ∑ a, s.balance a < 2 ^ 256)
    (hafford : Affordable s.balance ts) :
    ∃ s', runAll ts s = (ts.map fun _ => .ok true, s') ∧
      ∀ a, s'.balance a + paidBy a ts = s.balance a + receivedBy a ts := by
  induction ts generalizing s with
  | nil => exact ⟨s, rfl, fun a => rfl⟩
  | cons t ts ih =>
    have hscope := hafford t.scope
    rw [paidBy_cons, Batch.paid_scope] at hscope
    obtain ⟨s₁, hs₁, hbal₁⟩ := exists_transferN t hsum (by omega)
    have hsum₁ : ∑ a, s₁.balance a = ∑ a, s.balance a := by
      have htotal := Finset.sum_congr rfl fun a (_ : a ∈ Finset.univ) => hbal₁ a
      rw [Finset.sum_add_distrib, Finset.sum_add_distrib, Batch.sum_paid, Batch.sum_received]
        at htotal
      omega
    have hafford₁ : Affordable s₁.balance ts := by
      intro a
      have h1 := hafford a
      have h2 := hbal₁ a
      rw [paidBy_cons] at h1
      omega
    obtain ⟨s₂, hs₂, hbal₂⟩ := ih (hsum₁ ▸ hsum) hafford₁
    refine ⟨s₂, ?_, fun a => ?_⟩
    · simp only [runAll, transact, hs₁, hs₂, List.map_cons]
    · have h1 := hbal₁ a
      have h2 := hbal₂ a
      rw [paidBy_cons, receivedBy_cons]
      omega

end Affordable

/-! ### Who is taken from -/

variable {s s' : State A}

theorem deposit_eq_ok_iff {scope : A} {amount : ℕ} :
    deposit scope amount s = .ok s' ↔ s.balance scope + amount < 2 ^ 256 ∧
      s' = ⟨Function.update s.balance scope (s.balance scope + amount)⟩ := by
  constructor
  · intro h
    obtain ⟨v, hv, h⟩ := exists_of_bind_eq_ok h
    obtain ⟨hfit, rfl⟩ := addU_trap_eq_ok.mp hv
    cases h
    exact ⟨hfit, rfl⟩
  · rintro ⟨hfit, rfl⟩
    rw [deposit, addU_of_lt hfit, ok_bind]

/-- The second loop succeeds if every balance has room for what its address receives. -/
theorem depositAll_eq_ok_iff {ps : List (Payment A)} (hs : InUint256 s.balance) :
    depositAll ps s = .ok s' ↔ (∀ a, s.balance a + received a ps < 2 ^ 256) ∧
      s' = ⟨fun a => s.balance a + received a ps⟩ := by
  induction ps generalizing s with
  | nil =>
    rw [depositAll, Except.ok.injEq]
    exact ⟨fun h => ⟨hs, h.symm⟩, fun h => h.2.symm⟩
  | cons p ps ih =>
    rw [depositAll]
    by_cases hpos : p.amount > 0
    · rw [if_pos hpos]
      by_cases hfit : s.balance p.dest + p.amount < 2 ^ 256
      · have hcredit : ∀ a, Function.update s.balance p.dest (s.balance p.dest + p.amount) a =
            s.balance a + if a = p.dest then p.amount else 0 := update_credit _ _ _
        rw [deposit_eq_ok_iff.mpr ⟨hfit, rfl⟩, ok_bind, ih (hs.update p.dest hfit)]
        simp only [hcredit, received_cons, Nat.add_assoc]
      · constructor
        · intro h
          obtain ⟨s₁, h₁, -⟩ := exists_of_bind_eq_ok h
          exact absurd (deposit_eq_ok_iff.mp h₁).1 hfit
        · rintro ⟨hroom, -⟩
          have hdest := hroom p.dest
          rw [received_cons, if_pos rfl] at hdest
          omega
    · have h0 : p.amount = 0 := by omega
      rw [if_neg hpos, ih hs]
      simp only [received_cons, h0, ite_self, Nat.zero_add]

/-- A batch that is not covered changes nothing. -/
theorem transferN_of_lt {t : Batch A} {b : Bool}
    (hlt : s.balance t.scope < totalAmount t.recipients) (h : transferN t s = .ok (b, s')) :
    s' = s := by
  obtain ⟨total, htotal, h⟩ := exists_of_bind_eq_ok h
  rw [sumAmounts_eq_ok (Nat.two_pow_pos 256), Nat.zero_add] at htotal
  obtain ⟨-, rfl⟩ := htotal
  rw [if_neg (by omega)] at h
  cases h
  rfl

/-- The state after a batch has been debited. -/
def debited (t : Batch A) (s : State A) : State A :=
  ⟨Function.update s.balance t.scope (s.balance t.scope - totalAmount t.recipients)⟩

theorem balance_debited_self (t : Batch A) (s : State A) :
    (debited t s).balance t.scope = s.balance t.scope - totalAmount t.recipients :=
  Function.update_self _ _ _

theorem balance_debited_of_ne {t : Batch A} {a : A} (ha : a ≠ t.scope) (s : State A) :
    (debited t s).balance a = s.balance a :=
  Function.update_of_ne ha _ _

theorem inUint256_debited (hs : InUint256 s.balance) (t : Batch A) :
    InUint256 (debited t s).balance :=
  hs.update t.scope ((Nat.sub_le _ _).trans_lt (hs t.scope))

/-- There is always room for what the scope pays itself. -/
theorem debited_room_iff {t : Batch A} (hs : InUint256 s.balance)
    (hle : totalAmount t.recipients ≤ s.balance t.scope) :
    (∀ a, (debited t s).balance a + received a t.recipients < 2 ^ 256) ↔
      ∀ a, a ≠ t.scope → s.balance a + received a t.recipients < 2 ^ 256 := by
  constructor
  · intro h a ha
    rw [← balance_debited_of_ne ha]
    exact h a
  · intro h a
    by_cases ha : a = t.scope
    · have hscope := hs t.scope
      have hself := received_le_totalAmount t.scope t.recipients
      rw [ha, balance_debited_self]
      omega
    · rw [balance_debited_of_ne ha]
      exact h a ha

/-- A batch that is covered is paid, if every receiver has room. -/
theorem transferN_of_le {t : Batch A} {b : Bool} (hs : InUint256 s.balance)
    (hle : totalAmount t.recipients ≤ s.balance t.scope) :
    transferN t s = .ok (b, s') ↔
      (∀ a, (debited t s).balance a + received a t.recipients < 2 ^ 256) ∧ b = true ∧
        s' = ⟨fun a => (debited t s).balance a + received a t.recipients⟩ := by
  have hscope := hs t.scope
  have htotal : sumAmounts t.recipients 0 = .ok (totalAmount t.recipients) := by
    rw [sumAmounts_eq_ok (Nat.two_pow_pos 256), Nat.zero_add]
    exact ⟨by omega, rfl⟩
  have htransfer : transferN t s = (do
      let s ← depositAll t.recipients (debited t s)
      .ok (true, s)) := by
    rw [transferN, htotal, ok_bind, if_pos hle, subU_of_le hle, ok_bind, debited]
  rw [htransfer]
  constructor
  · intro h
    obtain ⟨s₁, hs₁, h⟩ := exists_of_bind_eq_ok h
    obtain ⟨hfit, rfl⟩ := (depositAll_eq_ok_iff (inUint256_debited hs t)).mp hs₁
    cases h
    exact ⟨hfit, rfl, rfl⟩
  · rintro ⟨hfit, rfl, rfl⟩
    rw [(depositAll_eq_ok_iff (inUint256_debited hs t)).mpr ⟨hfit, rfl⟩, ok_bind]

/-- The events of a run of the contract, latest first. -/
abbrev History (A : Type) := List (Event (Call A) Empty Value Fault)

variable {h : History A} {c c' : Config (State A) Empty} {k : Call A} {r : Except Fault Value}

theorem inUint256_call {eff : Effect (State A) Empty Value} (hs : InUint256 s.balance)
    (hk : machine.call k s = .ok eff) : InUint256 eff.state.balance := by
  cases k with
  | transferN t =>
    obtain ⟨⟨b, s'⟩, hs', hk⟩ := exists_of_bind_eq_ok hk
    cases hk
    by_cases hle : totalAmount t.recipients ≤ s.balance t.scope
    · obtain ⟨hfit, -, rfl⟩ := (transferN_of_le hs hle).mp hs'
      exact hfit
    · rw [transferN_of_lt (by omega) hs']
      exact hs
  | deposit scope amount =>
    obtain ⟨s', hs', hk⟩ := exists_of_bind_eq_ok hk
    obtain ⟨hfit, rfl⟩ := deposit_eq_ok_iff.mp hs'
    cases hk
    exact hs.update scope hfit
  | getBalance scope =>
    cases hk
    exact hs

theorem inRange_of_run (hr : machine.Run Anything ⟨empty, 0⟩ h c) : InUint256 c.state.balance := by
  refine hr.call_invariant (I := fun _ c => InUint256 c.state.balance)
    (fun _ => Nat.two_pow_pos 256) ?_ ?_
  · intro h c k eff _ ih _ hk
    exact inUint256_call ih hk
  · intro h c k f _ ih _ _
    exact ih

/-- A call takes from somebody other than `p`: it is a batch that is covered by an address that is
not `p`, that has room at the receivers, and that pays somebody else. -/
def Call.TakesFromOther (p : A) (s : State A) : Call A → Prop
  | .transferN t =>
    t.scope ≠ p ∧ totalAmount t.recipients ≤ s.balance t.scope ∧
      (∀ a, a ≠ t.scope → s.balance a + received a t.recipients < 2 ^ 256) ∧
      ∃ q ∈ t.recipients, 0 < q.amount ∧ q.dest ≠ t.scope
  | _ => False

/-- What a batch does: it is paid, or nothing changes. -/
theorem state_of_transferN {t : Batch A} (hs : InUint256 c.state.balance)
    (hst : machine.Step c (.call (.transferN t) r) c') :
    (totalAmount t.recipients ≤ c.state.balance t.scope ∧
        (∀ a, a ≠ t.scope → c.state.balance a + received a t.recipients < 2 ^ 256)) ∧
      (∀ a, c'.state.balance a = (debited t c.state).balance a + received a t.recipients) ∨
    ¬ (totalAmount t.recipients ≤ c.state.balance t.scope ∧
        ∀ a, a ≠ t.scope → c.state.balance a + received a t.recipients < 2 ^ 256) ∧
      c'.state = c.state := by
  cases hst with
  | callOk hk =>
    obtain ⟨⟨b, s'⟩, hs', hk⟩ := exists_of_bind_eq_ok hk
    cases hk
    by_cases hle : totalAmount t.recipients ≤ c.state.balance t.scope
    · obtain ⟨hfit, -, rfl⟩ := (transferN_of_le hs hle).mp hs'
      exact .inl ⟨⟨hle, (debited_room_iff hs hle).mp hfit⟩, fun _ => rfl⟩
    · exact .inr ⟨fun h => hle h.1, transferN_of_lt (by omega) hs'⟩
  | callError hk =>
    refine .inr ⟨?_, rfl⟩
    rintro ⟨hle, hroom⟩
    have hok := (transferN_of_le hs hle).mpr ⟨(debited_room_iff hs hle).mpr hroom, rfl, rfl⟩
    simp only [machine, hok, ok_bind] at hk
    cases hk

/-- **Who is taken from.** A call of `p` lowers no balance but that of `p`, or it is a batch that
takes from somebody else. -/
theorem no_decrease_iff (hs : InUint256 c.state.balance) (p : A)
    (hst : machine.Step c (.call k r) c') :
    (∀ a, a ≠ p → c.state.balance a ≤ c'.state.balance a) ↔ ¬ k.TakesFromOther p c.state := by
  cases k with
  | transferN t =>
    rcases state_of_transferN hs hst with ⟨⟨hle, hroom⟩, hpaid⟩ | ⟨hnot, hsame⟩
    · have hself := received_le_totalAmount t.scope t.recipients
      have hscope : c.state.balance t.scope ≤ c'.state.balance t.scope ↔
          ¬ ∃ q ∈ t.recipients, 0 < q.amount ∧ q.dest ≠ t.scope := by
        rw [← received_lt_totalAmount_iff, hpaid, balance_debited_self]
        omega
      constructor
      · rintro hkeep ⟨hp, -, -, hother⟩
        exact hscope.mp (hkeep t.scope hp) hother
      · intro hnot a ha
        by_cases hat : a = t.scope
        · rw [hat, hscope]
          exact fun hother => hnot ⟨hat ▸ ha, hle, hroom, hother⟩
        · rw [hpaid, balance_debited_of_ne hat]
          exact Nat.le_add_right _ _
    · rw [hsame]
      exact iff_of_true (fun _ _ => Nat.le_refl _) fun htakes => hnot ⟨htakes.2.1, htakes.2.2.1⟩
  | deposit scope amount =>
    refine iff_of_true (fun a _ => ?_) id
    cases hst with
    | callOk hk =>
      obtain ⟨s', hs', hk⟩ := exists_of_bind_eq_ok hk
      obtain ⟨-, rfl⟩ := deposit_eq_ok_iff.mp hs'
      cases hk
      have hcredit := update_credit c.state.balance scope amount a
      dsimp only
      omega
    | callError hk => exact Nat.le_refl _
  | getBalance scope =>
    refine iff_of_true (fun a _ => ?_) id
    cases hst with
    | callOk hk =>
      cases hk
      exact Nat.le_refl _
    | callError hk => cases hk

/-! ### The exact effect of a batch -/

/-- A batch reverts, and leaves the state as it was. -/
def Reverts (t : Batch A) (s : State A) : Prop := ∃ f, transact t s = (.error f, s)

theorem transact_eq_ok_iff {t : Batch A} {b : Bool} :
    transact t s = (.ok b, s') ↔ transferN t s = .ok (b, s') := by
  rw [transact]
  cases transferN t s with
  | error f => simp
  | ok r => simp [Prod.ext_iff]

/-- A batch that does not revert returns. -/
theorem reverts_iff {t : Batch A} : Reverts t s ↔ ∀ b s', transferN t s ≠ .ok (b, s') := by
  rw [Reverts, transact]
  cases transferN t s with
  | error f => simp
  | ok r =>
    obtain ⟨b, s'⟩ := r
    simp

/-- The credits of a covered batch fit, unless a prefix of the list brings a receiver to
`2 ^ 256`. -/
theorem room_iff_forall_credit {t : Batch A} (hs : InUint256 s.balance) :
    (∀ a, (debited t s).balance a + received a t.recipients < 2 ^ 256) ↔
      ¬ ∃ ps p, ps ++ [p] <+: t.recipients ∧
        2 ^ 256 ≤ (debited t s).balance p.dest + received p.dest (ps ++ [p]) := by
  constructor
  · rintro hroom ⟨ps, p, ⟨qs, hqs⟩, hfull⟩
    have hdest := hroom p.dest
    rw [← hqs, received_append] at hdest
    omega
  · intro hnone a
    by_contra hfull
    have hlt := inUint256_debited hs t a
    obtain ⟨ps, p, hpre, rfl, hle⟩ := exists_credit_of_le_received hlt (not_lt.mp hfull)
    exact hnone ⟨ps, p, hpre, hle⟩

/-- What a batch that was paid has done to each balance. -/
theorem balance_paid (t : Batch A) (s : State A) (a : A) :
    (debited t s).balance a + received a t.recipients =
      s.balance a - t.paid a + t.received a := by
  rw [Batch.received, Batch.paid]
  by_cases ha : a = t.scope
  · rw [if_pos ha, ha, balance_debited_self]
  · rw [if_neg ha, balance_debited_of_ne ha, Nat.sub_zero]

/-- A batch that returns moves tokens and makes none. -/
theorem sum_balance_of_transferN [Fintype A] {t : Batch A} {b : Bool} (hs : InUint256 s.balance)
    (h : transferN t s = .ok (b, s')) : ∑ a, s'.balance a = ∑ a, s.balance a := by
  rcases Nat.lt_or_ge (s.balance t.scope) (totalAmount t.recipients) with hlt | hle
  · rw [transferN_of_lt hlt h]
  · obtain ⟨-, -, rfl⟩ := (transferN_of_le hs hle).mp h
    have hdebit := sum_update_debit s.balance (Nat.sub_add_cancel hle)
    rw [Finset.sum_add_distrib, sum_received]
    exact hdebit

/-- **The exact effect of `transfer_n`.** With the sum of the amounts taken over the naturals:

* a sum of `2 ^ 256` or more reverts;
* otherwise a sum above the balance of the scope returns false, and changes nothing;
* otherwise the batch returns true, with each balance less what the address pays and more what it is
  paid, or it reverts; and it reverts if and only if some prefix of the list would bring a receiver
  to `2 ^ 256`.

A batch that does not revert keeps the sum of all balances. -/
theorem transferN_exact [Fintype A] (t : Batch A) (hs : InUint256 s.balance) :
    (2 ^ 256 ≤ totalAmount t.recipients → Reverts t s) ∧
    (totalAmount t.recipients < 2 ^ 256 → s.balance t.scope < totalAmount t.recipients →
      transact t s = (.ok false, s)) ∧
    (totalAmount t.recipients < 2 ^ 256 → totalAmount t.recipients ≤ s.balance t.scope →
      (transact t s = (.ok true, ⟨fun a => s.balance a - t.paid a + t.received a⟩) ∨
        Reverts t s) ∧
      (Reverts t s ↔ ∃ ps p, ps ++ [p] <+: t.recipients ∧
        2 ^ 256 ≤ (debited t s).balance p.dest + received p.dest (ps ++ [p]))) ∧
    ∀ b s', transact t s = (.ok b, s') → ∑ a, s'.balance a = ∑ a, s.balance a := by
  refine ⟨fun hge => ?_, fun hfit hlt => ?_, fun hfit hle => ?_, fun b s' h => ?_⟩
  · refine reverts_iff.mpr fun b s' h => ?_
    obtain ⟨total, htotal, -⟩ := exists_of_bind_eq_ok h
    rw [sumAmounts_eq_ok (Nat.two_pow_pos 256), Nat.zero_add] at htotal
    exact absurd htotal.1 (Nat.not_lt.mpr hge)
  · refine transact_eq_ok_iff.mpr ?_
    have htotal : sumAmounts t.recipients 0 = .ok (totalAmount t.recipients) := by
      rw [sumAmounts_eq_ok (Nat.two_pow_pos 256), Nat.zero_add]
      exact ⟨hfit, rfl⟩
    rw [transferN, htotal, ok_bind, if_neg (Nat.not_le.mpr hlt)]
  · by_cases hroom : ∀ a, (debited t s).balance a + received a t.recipients < 2 ^ 256
    · have hok := (transferN_of_le hs hle).mpr ⟨hroom, rfl, rfl⟩
      have hnot : ¬ Reverts t s := fun hrev => reverts_iff.mp hrev _ _ hok
      simp only [balance_paid] at hok
      have hfits := (room_iff_forall_credit hs).mp hroom
      exact ⟨.inl (transact_eq_ok_iff.mpr hok), iff_of_false hnot hfits⟩
    · have hrev : Reverts t s :=
        reverts_iff.mpr fun b s' h => hroom ((transferN_of_le hs hle).mp h).1
      have hprefix := not_not.mp (mt (room_iff_forall_credit hs).mpr hroom)
      exact ⟨.inr hrev, iff_of_true hrev hprefix⟩
  · exact sum_balance_of_transferN hs (transact_eq_ok_iff.mp h)

/-- A batch that pays the scope itself, a receiver twice, and nothing to somebody. -/
theorem transferN_exact_four : ∃ s : State (Fin 3), InUint256 s.balance ∧
    (transact ⟨0, [⟨1, 2⟩, ⟨0, 3⟩, ⟨2, 0⟩, ⟨1, 4⟩]⟩ s =
      (.ok true, ⟨fun a => s.balance a -
        (⟨0, [⟨1, 2⟩, ⟨0, 3⟩, ⟨2, 0⟩, ⟨1, 4⟩]⟩ : Batch (Fin 3)).paid a +
        (⟨0, [⟨1, 2⟩, ⟨0, 3⟩, ⟨2, 0⟩, ⟨1, 4⟩]⟩ : Batch (Fin 3)).received a⟩) ∨
      Reverts ⟨0, [⟨1, 2⟩, ⟨0, 3⟩, ⟨2, 0⟩, ⟨1, 4⟩]⟩ s) := by
  have hs : InUint256 (⟨fun _ => 10⟩ : State (Fin 3)).balance :=
    fun _ => show 10 < 2 ^ 256 by decide
  exact ⟨⟨fun _ => 10⟩, hs, ((transferN_exact _ hs).2.2.1 (by decide) (by decide)).1⟩

end AirDrop

end Sei

end RelayContracts
