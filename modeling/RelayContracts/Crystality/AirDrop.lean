import RelayContracts.RelayMachine
import RelayContracts.Sei.AirDrop

/-!
# The Crystality AirDrop contract

The contract of `AirDrop.sol` among the Crystality contracts. It is the Sei contract with one
change: where that one calls `_deposit`, this one sends the call to `address(666)`, which makes it
a relay to the scope of the receiver. A batch is debited in the call and credited payment by
payment, later and in any order.

As long as every address can pay for its batches from what it has at the start, this makes no
difference (`relayed_eq_sequential`). No order of calls and deliveries lets a call fail: a balance
is never below what its address still has to pay, since only its own batches take from it. No
order lets a delivery overflow: the balances and what is in flight never sum to more than at the
start. And in the end each balance has moved by what the batches take and bring, in whatever order.
-/

namespace RelayContracts

namespace Crystality

namespace AirDrop

open RelayMachine Solidity

/-- The state of the contract. -/
structure State (A : Type) where
  /-- `mapping (address => uint) balance`. -/
  balance : A → ℕ

/-- The public functions. -/
inductive Call (A : Type) where
  /-- `transfer_n(_scope, recipients)`. -/
  | transferN (t : Batch A)
  /-- `_deposit(_scope, amount)`, called directly. -/
  | deposit (scope : A) (amount : ℕ)
  deriving DecidableEq, Repr

/-- The relays. -/
inductive Relay (A : Type) where
  /-- `address(666).call(_deposit(_scope, amount))`. -/
  | deposit (scope : A) (amount : ℕ)
  deriving DecidableEq, Repr

variable {A : Type}

/-- The second loop of `transfer_n`: one relay for every positive amount. -/
def deposits (recipients : List (Payment A)) : List (Relay A) :=
  recipients.filterMap fun p => if p.amount > 0 then some (.deposit p.dest p.amount) else none

variable [DecidableEq A]

/-- `transfer_n(_scope, recipients)`. -/
def transferN (t : Batch A) (s : State A) :
    Except Fault (Effect (State A) (Relay A) (Option Bool)) := do
  let total ← sumAmounts t.recipients 0
  if total ≤ s.balance t.scope then do
    let v ← subU (s.balance t.scope) total
    .ok ⟨⟨Function.update s.balance t.scope v⟩, some true, deposits t.recipients⟩
  else .ok ⟨s, some false, []⟩

/-- `_deposit(_scope, amount)`. -/
def deposit (scope : A) (amount : ℕ) (s : State A) :
    Except Fault (Effect (State A) (Relay A) (Option Bool)) := do
  let v ← addU .trap 256 (s.balance scope) amount
  .ok ⟨⟨Function.update s.balance scope v⟩, none, []⟩

/-- The contract as a relay machine. -/
def machine : Machine (State A) (Call A) (Relay A) (Option Bool) Fault where
  call
    | .transferN t => transferN t
    | .deposit scope amount => deposit scope amount
  relay
    | .deposit scope amount => deposit scope amount

/-! ### What a successful step did -/

/-- What a relay carries. -/
def Relay.amount : Relay A → ℕ
  | .deposit _ amount => amount

/-- What a relay carries for an address. -/
def Relay.amountFor (a : A) : Relay A → ℕ
  | .deposit scope amount => if a = scope then amount else 0

omit [DecidableEq A] in
theorem deposits_cons (p : Payment A) (ps : List (Payment A)) :
    deposits (p :: ps) =
      if p.amount > 0 then .deposit p.dest p.amount :: deposits ps else deposits ps := by
  rw [deposits, List.filterMap_cons]
  by_cases hp : p.amount > 0
  · rw [if_pos hp, if_pos hp]
    rfl
  · rw [if_neg hp, if_neg hp]
    rfl

/-- The relays of a batch carry what each receiver is to receive. -/
theorem sum_amountFor_deposits (a : A) (ps : List (Payment A)) :
    ((deposits ps).map (Relay.amountFor a)).sum = received a ps := by
  induction ps with
  | nil => rfl
  | cons p ps ih =>
    rw [deposits_cons, received_cons, ← ih]
    by_cases hpos : p.amount > 0
    · rw [if_pos hpos, List.map_cons, List.sum_cons]
      rfl
    · have h0 : p.amount = 0 := by omega
      rw [if_neg hpos, h0, ite_self, Nat.zero_add]

omit [DecidableEq A] in
theorem sum_amount_deposits (ps : List (Payment A)) :
    ((deposits ps).map Relay.amount).sum = totalAmount ps := by
  induction ps with
  | nil => rfl
  | cons p ps ih =>
    rw [deposits_cons, totalAmount_cons, ← ih]
    by_cases hpos : p.amount > 0
    · rw [if_pos hpos, List.map_cons, List.sum_cons]
      rfl
    · have h0 : p.amount = 0 := by omega
      rw [if_neg hpos, h0, Nat.zero_add]

/-- What a successful call did, at a state `s`. -/
inductive Called (s : State A) : Call A → Effect (State A) (Relay A) (Option Bool) → Prop
  /-- `transfer_n` debited the sum and relayed the deposits. -/
  | transferN {t : Batch A} (hle : totalAmount t.recipients ≤ s.balance t.scope) :
      Called s (.transferN t)
        ⟨⟨Function.update s.balance t.scope (s.balance t.scope - totalAmount t.recipients)⟩,
          some true, deposits t.recipients⟩
  /-- `transfer_n` found the balance too small, and changed nothing. -/
  | transferNFalse {t : Batch A} (hlt : s.balance t.scope < totalAmount t.recipients) :
      Called s (.transferN t) ⟨s, some false, []⟩
  /-- `_deposit` credited the scope. -/
  | deposit {scope : A} {amount : ℕ} (hfit : s.balance scope + amount < 2 ^ 256) :
      Called s (.deposit scope amount)
        ⟨⟨Function.update s.balance scope (s.balance scope + amount)⟩, none, []⟩

theorem eq_of_deposit_ok {scope : A} {amount : ℕ} {s : State A}
    {eff : Effect (State A) (Relay A) (Option Bool)} (h : deposit scope amount s = .ok eff) :
    s.balance scope + amount < 2 ^ 256 ∧
      eff = ⟨⟨Function.update s.balance scope (s.balance scope + amount)⟩, none, []⟩ := by
  obtain ⟨v, hv, h⟩ := exists_of_bind_eq_ok h
  obtain ⟨hfit, rfl⟩ := addU_trap_eq_ok.mp hv
  cases h
  exact ⟨hfit, rfl⟩

theorem called_of_ok {s : State A} {k : Call A} {eff : Effect (State A) (Relay A) (Option Bool)}
    (h : machine.call k s = .ok eff) : Called s k eff := by
  cases k with
  | transferN t =>
    obtain ⟨total, htotal, h⟩ := exists_of_bind_eq_ok (show transferN t s = .ok eff from h)
    rw [sumAmounts_eq_ok (Nat.two_pow_pos 256), Nat.zero_add] at htotal
    obtain ⟨-, rfl⟩ := htotal
    split at h
    · rename_i hle
      rw [subU_of_le hle] at h
      cases h
      exact .transferN hle
    · cases h
      exact .transferNFalse (Nat.lt_of_not_le ‹_›)
  | deposit scope amount =>
    obtain ⟨hfit, rfl⟩ := eq_of_deposit_ok (show deposit scope amount s = .ok eff from h)
    exact .deposit hfit

/-- `transfer_n` succeeds if the sum is covered and the balances are `uint`s. -/
theorem transferN_of_le {t : Batch A} {s : State A} (hbal : s.balance t.scope < 2 ^ 256)
    (hle : totalAmount t.recipients ≤ s.balance t.scope) :
    ∃ eff, machine.call (.transferN t) s = .ok eff ∧ eff.value = some true := by
  have htotal : sumAmounts t.recipients 0 = .ok (totalAmount t.recipients) := by
    rw [sumAmounts_eq_ok (Nat.two_pow_pos 256), Nat.zero_add]
    exact ⟨by omega, rfl⟩
  refine ⟨⟨⟨Function.update s.balance t.scope (s.balance t.scope - totalAmount t.recipients)⟩,
    some true, deposits t.recipients⟩, ?_, rfl⟩
  change transferN t s = _
  simp only [transferN, htotal, bind, Except.bind, if_pos hle, subU_of_le hle]

/-! ### The accounts along a run -/

/-- The events of a run of the AirDrop, latest first. -/
abbrev History (A : Type) := List (Event (Call A) (Relay A) (Option Bool) Fault)

/-- What a batch that was paid amounts to, by a measure of batches. -/
def settled (f : Batch A → ℕ) : Event (Call A) (Relay A) (Option Bool) Fault → ℕ
  | .call (.transferN t) (.ok (some true)) => f t
  | _ => 0

/-- What a direct call of `_deposit` has brought, by a measure of relays. -/
def deposited (w : Relay A → ℕ) : Event (Call A) (Relay A) (Option Bool) Fault → ℕ
  | .call (.deposit scope amount) (.ok _) => w (.deposit scope amount)
  | _ => 0

/-- What a call amounts to if it is a batch, by a measure of batches. -/
def Call.batch (f : Batch A → ℕ) : Call A → ℕ
  | .transferN t => f t
  | .deposit _ _ => 0

section Runs

variable {b : A → ℕ} {h : History A} {c : Config (State A) (Relay A)}
  {G : History A → Config (State A) (Relay A) → Event (Call A) (Relay A) (Option Bool) Fault → Prop}

/-- **The account of an address.** What it has, what is in flight for it, what it has paid and what
it has lost are what it had and what it was brought. -/
theorem account_of_run (hr : machine.Run G ⟨⟨b⟩, 0⟩ h c) (a : A) :
    c.state.balance a + c.carried (Relay.amountFor a) +
      (booked (settled (Batch.paid a)) h + booked (reverted (Relay.amountFor a)) h) =
    b a + (booked (settled (Batch.received a)) h + booked (deposited (Relay.amountFor a)) h) := by
  have hbal := hr.conserved (fun s => s.balance a) (Relay.amountFor a)
    (fun e => settled (Batch.paid a) e + reverted (Relay.amountFor a) e)
    (fun e => settled (Batch.received a) e + deposited (Relay.amountFor a) e) ?_ ?_ ?_ ?_
  · simpa [booked_add] using hbal
  · intro h c k eff _ hk
    cases called_of_ok hk with
    | @transferN t hle =>
      have hdebit := update_debit c.state.balance (Nat.sub_add_cancel hle) a
      simp only [settled, deposited, reverted_call, Batch.paid, Batch.received,
        sum_amountFor_deposits]
      omega
    | transferNFalse => simp [settled, deposited]
    | @deposit scope amount hfit =>
      simp [settled, deposited, update_credit, Relay.amountFor]
  · intro s k f _
    cases k <;> simp [settled, deposited]
  · rintro s ⟨scope, amount⟩ eff hk
    obtain ⟨-, rfl⟩ := eq_of_deposit_ok hk
    simp [settled, deposited, update_credit, Relay.amountFor]
  · intro s m f _
    simp [settled, deposited]

/-- **All accounts.** What the balances hold, what is in flight and what was lost are what the
balances held at the start and what was deposited directly. -/
theorem accounts_of_run [Fintype A] (hr : machine.Run G ⟨⟨b⟩, 0⟩ h c) :
    ∑ a, c.state.balance a + c.carried Relay.amount + booked (reverted Relay.amount) h =
      ∑ a, b a + booked (deposited Relay.amount) h := by
  have hbal := hr.conserved (fun s => ∑ a, s.balance a) Relay.amount (reverted Relay.amount)
    (deposited Relay.amount) ?_ ?_ ?_ ?_
  · simpa using hbal
  · intro h c k eff _ hk
    cases called_of_ok hk with
    | @transferN t hle =>
      have hdebit := sum_update_debit c.state.balance (Nat.sub_add_cancel hle)
      simpa [deposited, sum_amount_deposits] using hdebit
    | transferNFalse => simp [deposited]
    | @deposit scope amount hfit => simp [deposited, sum_update_credit, Relay.amount]
  · intro s k f _
    cases k <;> simp [deposited]
  · rintro s ⟨scope, amount⟩ eff hk
    obtain ⟨-, rfl⟩ := eq_of_deposit_ok hk
    simp [deposited, sum_update_credit, Relay.amount]
  · intro s m f _
    simp [deposited]

/-- Only its own batches take from a balance. -/
theorem le_balance_add_paid (hr : machine.Run G ⟨⟨b⟩, 0⟩ h c) (a : A) :
    b a ≤ c.state.balance a + booked (settled (Batch.paid a)) h := by
  refine hr.invariant (I := fun h c =>
    b a ≤ c.state.balance a + booked (settled (Batch.paid a)) h) (Nat.le_add_right _ _) ?_ ?_ ?_ ?_
  · intro h c k eff _ ih _ hk
    rw [booked_cons]
    cases called_of_ok hk with
    | @transferN t hle =>
      have hdebit := update_debit c.state.balance (Nat.sub_add_cancel hle) a
      simp only [settled, Batch.paid]
      omega
    | transferNFalse => simpa [settled] using ih
    | @deposit scope amount hfit =>
      simp only [settled, update_credit]
      omega
  · intro h c k f _ ih _ _
    rw [booked_cons]
    omega
  · rintro h s ⟨scope, amount⟩ rest eff _ ih _ hk
    obtain ⟨-, rfl⟩ := eq_of_deposit_ok hk
    rw [booked_cons]
    simp only [settled, update_credit] at ih ⊢
    omega
  · intro h s m rest f _ ih _ _
    rw [booked_cons]
    exact ih.trans (Nat.add_le_add_left (Nat.le_add_left _ _) _)

/-! ### Batches that can be paid for -/

omit [DecidableEq A] in
/-- The batches paid are among the calls. -/
theorem booked_settled_le (f : Batch A → ℕ) (h : History A) :
    booked (settled f) h ≤ ((calls h).map (Call.batch f)).sum := by
  induction h with
  | nil => exact Nat.le_refl 0
  | cons e h ih =>
    rw [booked_cons]
    cases e with
    | call k r =>
      have hle : settled f (.call k r : Event (Call A) (Relay A) (Option Bool) Fault) ≤
          k.batch f := by
        rw [settled.eq_def]
        split
        · rename_i heq
          cases heq
          exact Nat.le_refl _
        · exact Nat.zero_le _
      rw [calls_cons_call, List.map_cons, List.sum_cons]
      omega
    | deliver m r =>
      rw [calls_cons_deliver]
      exact (Nat.zero_add _).trans_le ih

omit [DecidableEq A] in
theorem map_batch_transferN (f : Batch A → ℕ) (ts : List (Batch A)) :
    ((ts.map Call.transferN).map (Call.batch f)).sum = (ts.map f).sum := by
  rw [List.map_map]
  rfl

variable {ts : List (Batch A)}

omit [DecidableEq A] in
/-- Some of the calls amount to no more than all. -/
theorem sum_batch_le (f : Batch A → ℕ) {ks : List (Call A)}
    (hks : ks.Subperm (ts.map .transferN)) : (ks.map (Call.batch f)).sum ≤ (ts.map f).sum := by
  obtain ⟨ks', hperm, hsub⟩ := hks
  rw [← map_batch_transferN, ← (hperm.map (Call.batch f)).sum_eq]
  exact (hsub.map _).sum_le_sum fun _ _ => Nat.zero_le _

omit [DecidableEq A] in
theorem booked_deposited (w : Relay A → ℕ) (hcalls : ∀ k ∈ calls h, ∃ t, k = .transferN t) :
    booked (deposited w) h = 0 := by
  induction h with
  | nil => rfl
  | cons e h ih =>
    rw [booked_cons]
    cases e with
    | call k r =>
      obtain ⟨t, rfl⟩ := hcalls k List.mem_cons_self
      exact (Nat.zero_add _).trans (ih fun k hk => hcalls k (List.mem_cons_of_mem _ hk))
    | deliver m r => exact (Nat.zero_add _).trans (ih hcalls)

omit [DecidableEq A] in
theorem exists_of_mem_calls (hcalls : (calls h).Subperm (ts.map .transferN)) :
    ∀ k ∈ calls h, ∃ t, k = .transferN t := by
  intro k hk
  obtain ⟨t, -, rfl⟩ := List.mem_map.mp (hcalls.subset hk)
  exact ⟨t, rfl⟩

/-- Every call of a history returned true, and no relay of it reverted. -/
def Flawless (h : History A) : Prop :=
  (∀ k r, .call k r ∈ h → r = .ok (some true)) ∧ ∀ m r, .deliver m r ∈ h → r = .ok none

/-- What the next batch takes is left over from what its address had at the start. -/
theorem totalAmount_le_balance (hr : machine.Run G ⟨⟨b⟩, 0⟩ h c) (hafford : Affordable b ts)
    {t : Batch A} (hcalls : (.transferN t :: calls h).Subperm (ts.map .transferN)) :
    totalAmount t.recipients ≤ c.state.balance t.scope := by
  have hpaid : totalAmount t.recipients + ((calls h).map (Call.batch (Batch.paid t.scope))).sum ≤
      paidBy t.scope ts := by
    have hle := sum_batch_le (Batch.paid t.scope) hcalls
    rwa [List.map_cons, List.sum_cons, Call.batch, Batch.paid_scope] at hle
  have hsettled := booked_settled_le (Batch.paid t.scope) h
  have hleft := le_balance_add_paid hr t.scope
  have := hafford t.scope
  omega

/-- While only batches are called, a balance has room for all that is in flight. -/
theorem balance_add_inFlight_lt [Fintype A] (hr : machine.Run G ⟨⟨b⟩, 0⟩ h c)
    (hb : ∑ a, b a < 2 ^ 256) (hcalls : ∀ k ∈ calls h, ∃ t, k = .transferN t) (a : A) :
    c.state.balance a + c.carried Relay.amount < 2 ^ 256 := by
  have hsum := accounts_of_run hr
  rw [booked_deposited _ hcalls] at hsum
  have hle : c.state.balance a ≤ ∑ a, c.state.balance a :=
    Finset.single_le_sum (fun _ _ => Nat.zero_le _) (Finset.mem_univ a)
  omega

omit [DecidableEq A] in
theorem Flawless.cons {e : Event (Call A) (Relay A) (Option Bool) Fault} (hf : Flawless h)
    (hcall : ∀ k r, e = .call k r → r = .ok (some true))
    (hdeliver : ∀ m r, e = .deliver m r → r = .ok none) : Flawless (e :: h) := by
  constructor
  · intro k r hmem
    rcases List.mem_cons.mp hmem with heq | hmem
    · exact hcall k r heq.symm
    · exact hf.1 k r hmem
  · intro m r hmem
    rcases List.mem_cons.mp hmem with heq | hmem
    · exact hdeliver m r heq.symm
    · exact hf.2 m r hmem

/-- **Nothing goes wrong.** While the calls are among batches that can be paid for, every call
returns true and no relay reverts. -/
theorem flawless_of_run [Fintype A] (hr : machine.Run G ⟨⟨b⟩, 0⟩ h c)
    (hb : ∑ a, b a < 2 ^ 256) (hafford : Affordable b ts)
    (hcalls : (calls h).Subperm (ts.map .transferN)) : Flawless h := by
  induction hr with
  | nil => exact ⟨by simp, by simp⟩
  | @step h c c' e hr hs hg ih =>
    have hsub : (calls h).Sublist (calls (e :: h)) := by
      cases e with
      | call k r => exact List.sublist_cons_self k _
      | deliver m r => exact List.Sublist.refl _
    have hcalls' : (calls h).Subperm (ts.map .transferN) := hsub.subperm.trans hcalls
    have hroom := balance_add_inFlight_lt hr hb (exists_of_mem_calls hcalls')
    refine (ih hcalls').cons ?_ ?_
    · rintro k r rfl
      obtain ⟨t, rfl⟩ := exists_of_mem_calls hcalls k List.mem_cons_self
      have hle := totalAmount_le_balance hr hafford hcalls
      have hfit := Nat.lt_of_le_of_lt (Nat.le_add_right _ _) (hroom t.scope)
      obtain ⟨eff, heff, hval⟩ := transferN_of_le hfit hle
      cases hs with
      | callOk hk =>
        cases heff.symm.trans hk
        rw [hval]
      | callError hk => cases heff.symm.trans hk
    · rintro ⟨scope, amount⟩ r rfl
      cases hs with
      | deliverOk hm hk =>
        obtain ⟨-, rfl⟩ := eq_of_deposit_ok hk
        rfl
      | deliverError hm hk =>
        have hroom := hroom scope
        rw [Config.carried, hm, Multiset.map_cons, Multiset.sum_cons, Relay.amount] at hroom
        have hk : deposit scope amount c.state = _ := hk
        rw [deposit, addU_of_lt (by omega)] at hk
        cases hk

omit [DecidableEq A] in
theorem Flawless.booked_reverted (hf : Flawless h) (w : Relay A → ℕ) :
    booked (reverted w) h = 0 := by
  obtain ⟨-, hdeliver⟩ := hf
  induction h with
  | nil => rfl
  | cons e h ih =>
    have ih := ih fun m r hmem => hdeliver m r (List.mem_cons_of_mem _ hmem)
    rw [booked_cons, ih, Nat.add_zero]
    cases e with
    | call k r => rfl
    | deliver m r =>
      obtain rfl := hdeliver m r List.mem_cons_self
      rfl

omit [DecidableEq A] in
/-- In a flawless history of batches, the batches paid are the calls. -/
theorem Flawless.booked_settled (hf : Flawless h) (f : Batch A → ℕ)
    (hcalls : (calls h).Perm (ts.map .transferN)) : booked (settled f) h = (ts.map f).sum := by
  rw [← map_batch_transferN, ← (hcalls.map (Call.batch f)).sum_eq]
  have hbatches := exists_of_mem_calls hcalls.subperm
  obtain ⟨hcall, -⟩ := hf
  clear hcalls
  induction h with
  | nil => rfl
  | cons e h ih =>
    have ih := fun hbatches => ih hbatches fun k r hmem => hcall k r (List.mem_cons_of_mem _ hmem)
    rw [booked_cons]
    cases e with
    | call k r =>
      obtain ⟨t, rfl⟩ := hbatches k List.mem_cons_self
      obtain rfl := hcall _ r List.mem_cons_self
      rw [calls_cons_call, List.map_cons, List.sum_cons,
        ih fun k hk => hbatches k (List.mem_cons_of_mem _ hk)]
      rfl
    | deliver m r =>
      rw [ih hbatches]
      exact Nat.zero_add _

/-- **The balances in the end.** Once all batches are called and nothing is in flight, every
balance has moved by what the batches take and bring. -/
theorem balance_of_quiescent [Fintype A] (hr : machine.Run G ⟨⟨b⟩, 0⟩ h c)
    (hb : ∑ a, b a < 2 ^ 256) (hafford : Affordable b ts)
    (hcalls : (calls h).Perm (ts.map .transferN)) (hq : c.inFlight = 0) (a : A) :
    c.state.balance a + paidBy a ts = b a + receivedBy a ts := by
  have hflawless := flawless_of_run hr hb hafford hcalls.subperm
  have haccount := account_of_run hr a
  rw [Config.carried_of_quiescent _ hq, hflawless.booked_reverted,
    booked_deposited _ (exists_of_mem_calls hcalls.subperm), hflawless.booked_settled _ hcalls,
    hflawless.booked_settled _ hcalls] at haccount
  exact haccount

/-- **Relayed execution equals sequential execution.** Take balances that sum below `2 ^ 256` and
batches that every address can pay for from its balance at the start. For every order of executing
the calls and delivering the relays of the Crystality contract, every call returns true and no
relay reverts. Whenever all batches have been called and nothing is in flight, the balances are the
same, and the Sei contract reaches them by executing the batches one after the other in any
order. -/
theorem relayed_eq_sequential [Fintype A] (hb : ∑ a, b a < 2 ^ 256) (hafford : Affordable b ts) :
    (∀ h c, machine.Run Anything ⟨⟨b⟩, 0⟩ h c → (calls h).Subperm (ts.map .transferN) →
      (∀ k r, .call k r ∈ h → r = .ok (some true)) ∧ ∀ m r, .deliver m r ∈ h → r = .ok none) ∧
    ∃ final : A → ℕ,
      (∀ h c, machine.Run Anything ⟨⟨b⟩, 0⟩ h c → (calls h).Perm (ts.map .transferN) →
        c.inFlight = 0 → c.state.balance = final) ∧
      ∀ ts', ts'.Perm ts →
        Sei.AirDrop.runAll ts' ⟨b⟩ = (ts'.map fun _ => .ok true, ⟨final⟩) := by
  refine ⟨fun h c hr hcalls => flawless_of_run hr hb hafford hcalls,
    fun a => b a + receivedBy a ts - paidBy a ts, fun h c hr hcalls hq => ?_, fun ts' hperm => ?_⟩
  · funext a
    have := balance_of_quiescent hr hb hafford hcalls hq a
    omega
  · have hpaid : ∀ a, paidBy a ts' = paidBy a ts := fun a => (hperm.map _).sum_eq
    have hreceived : ∀ a, receivedBy a ts' = receivedBy a ts := fun a => (hperm.map _).sum_eq
    have hafford' : Affordable b ts' := fun a => (hpaid a).trans_le (hafford a)
    obtain ⟨⟨balance⟩, hrun, hbal⟩ := Sei.AirDrop.exists_runAll (s := ⟨b⟩) hb hafford'
    obtain rfl : balance = fun a => b a + receivedBy a ts - paidBy a ts := by
      funext a
      have hbal : balance a + paidBy a ts' = b a + receivedBy a ts' := hbal a
      rw [hpaid, hreceived] at hbal
      omega
    exact hrun

end Runs

/-- Two batches, with a repeated receiver, an amount of 0 and a payment to the payer, interleaved so
that the second is called between the deliveries of the first. -/
theorem relayed_eq_sequential_twoBatches : ∃ h c,
    machine.Run Anything ⟨⟨fun _ : Fin 3 => 10⟩, 0⟩ h c ∧
      calls h = [.transferN ⟨1, [⟨2, 5⟩]⟩, .transferN ⟨0, [⟨1, 3⟩, ⟨1, 4⟩, ⟨2, 0⟩, ⟨0, 1⟩]⟩] ∧
      c.inFlight = 0 ∧
      ∀ ts', ts'.Perm [⟨0, [⟨1, 3⟩, ⟨1, 4⟩, ⟨2, 0⟩, ⟨0, 1⟩]⟩, ⟨1, [⟨2, 5⟩]⟩] →
        Sei.AirDrop.runAll ts' ⟨fun _ => 10⟩ = (ts'.map fun _ => .ok true, ⟨c.state.balance⟩) := by
  obtain ⟨⟨h, c⟩, hx, hcalls, hq⟩ :
      ∃ r ∈ machine.exec Anything ⟨⟨fun _ : Fin 3 => 10⟩, 0⟩
        [.call (.transferN ⟨0, [⟨1, 3⟩, ⟨1, 4⟩, ⟨2, 0⟩, ⟨0, 1⟩]⟩), .deliver (.deposit 1 4),
          .call (.transferN ⟨1, [⟨2, 5⟩]⟩), .deliver (.deposit 0 1), .deliver (.deposit 2 5),
          .deliver (.deposit 1 3)],
        calls r.1 = [.transferN ⟨1, [⟨2, 5⟩]⟩,
          .transferN ⟨0, [⟨1, 3⟩, ⟨1, 4⟩, ⟨2, 0⟩, ⟨0, 1⟩]⟩] ∧ r.2.inFlight = 0 := by decide
  have hr := Machine.exec_run hx
  have hafford : Affordable (fun _ : Fin 3 => 10)
      [⟨0, [⟨1, 3⟩, ⟨1, 4⟩, ⟨2, 0⟩, ⟨0, 1⟩]⟩, ⟨1, [⟨2, 5⟩]⟩] := by
    intro a
    revert a
    decide
  obtain ⟨-, final, hrelayed, hsequential⟩ := relayed_eq_sequential (by decide) hafford
  rw [← hrelayed h c hr (by rw [hcalls]; exact List.Perm.swap ..) hq] at hsequential
  exact ⟨h, c, hr, hcalls, hq, hsequential⟩

end AirDrop

end Crystality

end RelayContracts
