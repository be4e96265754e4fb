import Mathlib.Algebra.BigOperators.Ring.Finset
import RelayContracts.FixedWidth
import RelayContracts.Synchronous

/-!
# The Aptos airdrop module

The Move module `xtl_airdrop`. An account that has initialized has a `CoinStore`, and `transfer_n`
pays the same amount to each address of a list, out of the sender's store.

The amounts are withdrawn and deposited one by one, against the store as it is then; where the
sender is a recipient itself, the one changes what the other finds. Before the loop the balance is
compared with the sum, and `transferN_effect` says that this is enough: what the loop withdraws is
there.

A transaction that aborts changes nothing.

## Main definitions

* `AirDrop.withdraw`, `AirDrop.deposit`, `AirDrop.transferN`
* `AirDrop.paidOut` — the store after some of the payments
* `AirDrop.Overflows` — a credit of the loop does not fit
-/

namespace RelayContracts

namespace Aptos

namespace AirDrop

open RelayMachine

/-- Why a transaction aborted. -/
inductive Abort where
  /-- `THE_ACCOUNT_IS_NOT_EXISTED`, from an `assert!`. -/
  | theAccountIsNotExisted
  /-- `INSUFFICIENT_BALANCE`, from the `assert!` of `withdraw`. -/
  | insufficientBalance
  /-- `move_to` where the resource exists. -/
  | resourceAlreadyExists
  /-- `borrow_global` where it does not. -/
  | missingData
  /-- A `u64` overflowed. -/
  | arithmeticError
  deriving DecidableEq, Repr

/-- The field `coin.value` of the `CoinStore` of each account that has one. -/
abbrev Storage (A : Type) := A → Option ℕ

/-- The functions of the module, with the signer. -/
inductive Call (A : Type) where
  /-- `initialize(addr, amount)`. -/
  | initializeStore (addr : A) (amount : ℕ)
  /-- `transfer_n(from, recipients)`. -/
  | transferN (sender : A) (recipients : List A)
  /-- `getBalance(owner)`. -/
  | getBalance (owner : A)
  deriving DecidableEq, Repr

variable {A : Type}

/-- `AIRDROP_AMOUNT`. -/
def airdropAmount : ℕ := 100

/-! ### The functions -/

/-- A `u64` operation. -/
def arithmetic {α : Type} (x : Except Fault α) : Except Abort α := faultAs .arithmeticError x

/-- `assert!(exists<CoinStore>(account), THE_ACCOUNT_IS_NOT_EXISTED)`. -/
def assertExists (account : A) (s : Storage A) : Except Abort Unit :=
  if (s account).isSome then .ok () else .error .theAccountIsNotExisted

/-- `borrow_global<CoinStore>(account).coin.value`. -/
def borrowGlobal (account : A) (s : Storage A) : Except Abort ℕ :=
  match s account with
  | some value => .ok value
  | none => .error .missingData

/-- `getBalance(owner)`. -/
def getBalance (owner : A) (s : Storage A) : Except Abort ℕ := do
  assertExists owner s
  borrowGlobal owner s

variable [DecidableEq A]

/-- `deposit(account_addr, coin)`. -/
def deposit (account : A) (coin : ℕ) (s : Storage A) : Except Abort (Storage A) := do
  assertExists account s
  let balance ← getBalance account s
  let value ← arithmetic (addU .trap 64 balance coin)
  .ok (Function.update s account (some value))

/-- `withdraw(account_addr, amount)`. -/
def withdraw (account : A) (amount : ℕ) (s : Storage A) : Except Abort (ℕ × Storage A) := do
  assertExists account s
  let balance ← getBalance account s
  if balance ≥ amount then do
    let value ← arithmetic (subU balance amount)
    .ok (amount, Function.update s account (some value))
  else .error .insufficientBalance

/-- The loop of `transfer_n`. -/
def payAll (sender : A) : List A → Storage A → Except Abort (Storage A)
  | [], s => .ok s
  | dest :: dests, s => do
    let (coin, s) ← withdraw sender airdropAmount s
    let s ← deposit dest coin s
    payAll sender dests s

/-- `transfer_n(from, recipients)`. -/
def transferN (sender : A) (recipients : List A) (s : Storage A) : Except Abort (Storage A) := do
  let balance ← getBalance sender s
  let total ← arithmetic (mulU .trap 64 airdropAmount recipients.length)
  if balance ≥ total then payAll sender recipients s else .ok s

/-- `initialize(addr, amount)`. -/
def initializeStore (addr : A) (amount : ℕ) (s : Storage A) : Except Abort (Storage A) :=
  match s addr with
  | some _ => .error .resourceAlreadyExists
  | none => .ok (Function.update s addr (some amount))

/-- The module as a machine without relays. -/
def machine : Machine (Storage A) (Call A) Empty (Option ℕ) Abort where
  call
    | .initializeStore addr amount => fun s => do
      let s ← initializeStore addr amount s
      .ok ⟨s, none, []⟩
    | .transferN sender recipients => fun s => do
      let s ← transferN sender recipients s
      .ok ⟨s, none, []⟩
    | .getBalance owner => fun s => do
      let balance ← getBalance owner s
      .ok ⟨s, some balance, []⟩
  relay m := m.elim

/-! ### The functions at a store -/

section Specs

variable {s : Storage A} {account : A} {v : ℕ}

omit [DecidableEq A] in
theorem getBalance_of_some (h : s account = some v) : getBalance account s = .ok v := by
  simp [getBalance, assertExists, borrowGlobal, h]

omit [DecidableEq A] in
theorem getBalance_of_none (h : s account = none) :
    getBalance account s = .error .theAccountIsNotExisted := by
  simp [getBalance, assertExists, h]

theorem withdraw_of_le {amount : ℕ} (h : s account = some v) (hle : amount ≤ v) :
    withdraw account amount s =
      .ok (amount, Function.update s account (some (v - amount))) := by
  have hexists : assertExists account s = .ok () := by simp [assertExists, h]
  have hsub : arithmetic (subU v amount) = .ok (v - amount) := faultAs_eq_ok.mpr (subU_of_le hle)
  rw [withdraw, hexists, ok_bind, getBalance_of_some h, ok_bind, if_pos hle, hsub, ok_bind]

theorem deposit_of_none {coin : ℕ} (h : s account = none) :
    deposit account coin s = .error .theAccountIsNotExisted := by
  simp [deposit, assertExists, h]

theorem deposit_of_some {coin : ℕ} (h : s account = some v) :
    deposit account coin s =
      if v + coin < 2 ^ 64 then .ok (Function.update s account (some (v + coin)))
      else .error .arithmeticError := by
  have hexists : assertExists account s = .ok () := by simp [assertExists, h]
  rw [deposit, hexists, ok_bind, getBalance_of_some h, ok_bind]
  split
  · rename_i hfit
    have hadd : arithmetic (addU .trap 64 v coin) = .ok (v + coin) :=
      faultAs_eq_ok.mpr (addU_of_lt hfit)
    rw [hadd, ok_bind]
  · rename_i hfull
    rw [addU, if_neg hfull]
    rfl

end Specs

/-! ### The loop -/

/-- The store after the payments to `ps`. -/
def paidOut (sender : A) (ps : List A) (s : Storage A) : Storage A := fun a =>
  (s a).map fun v => v - (if a = sender then 100 * ps.length else 0) + 100 * ps.count a

/-- The store after the payments to `ps` and one more withdrawal. -/
def withdrawn (sender : A) (ps : List A) (s : Storage A) : Storage A := fun a =>
  (s a).map fun v => v - (if a = sender then 100 * (ps.length + 1) else 0) + 100 * ps.count a

/-- The balance of an account with `v` coins, after it has received the payment that follows those
to `ps`. -/
def credited (sender : A) (ps : List A) (dest : A) (v : ℕ) : ℕ :=
  v - (if dest = sender then 100 * (ps.length + 1) else 0) + 100 * ps.count dest + 100

/-- The payments to `qs` can be made after those to `ps`. -/
def Payable (sender : A) (s : Storage A) : (ps qs : List A) → Prop
  | _, [] => True
  | ps, dest :: qs =>
    (∃ v, s dest = some v ∧ credited sender ps dest v < 2 ^ 64) ∧ Payable sender s (ps ++ [dest]) qs

/-- Some credit in the sequence of payments does not fit. -/
def Overflows (sender : A) (recipients : List A) (s : Storage A) : Prop :=
  ∃ ps dest v, ps ++ [dest] <+: recipients ∧ s dest = some v ∧
    2 ^ 64 ≤ credited sender ps dest v

section Loop

variable {sender : A} {s s' : Storage A} {ps qs : List A} {b : ℕ}

theorem paidOut_nil (sender : A) (s : Storage A) : paidOut sender [] s = s := by
  funext a
  simp [paidOut]

/-- What the sender has left is enough for a withdrawal. -/
theorem withdraw_paidOut (hb : s sender = some b) (hle : 100 * (ps.length + 1) ≤ b) :
    withdraw sender airdropAmount (paidOut sender ps s) =
      .ok (airdropAmount, withdrawn sender ps s) := by
  have hself : paidOut sender ps s sender =
      some (b - 100 * ps.length + 100 * ps.count sender) := by
    rw [paidOut, hb, Option.map_some, if_pos rfl]
  have hrest : Function.update (paidOut sender ps s) sender
      (some (b - 100 * ps.length + 100 * ps.count sender - airdropAmount)) =
        withdrawn sender ps s := by
    funext a
    by_cases ha : a = sender
    · subst ha
      rw [Function.update_self, withdrawn, hb, Option.map_some, if_pos rfl, airdropAmount]
      congr 1
      omega
    · rw [Function.update_of_ne ha, paidOut, withdrawn, if_neg ha, if_neg ha]
  rw [withdraw_of_le hself (by rw [airdropAmount]; omega), hrest]

/-- A deposit fails where there is no store or no room, and is the next payment otherwise. -/
theorem deposit_withdrawn (dest : A) :
    deposit dest airdropAmount (withdrawn sender ps s) =
      match s dest with
      | none => .error .theAccountIsNotExisted
      | some v =>
        if credited sender ps dest v < 2 ^ 64 then .ok (paidOut sender (ps ++ [dest]) s)
        else .error .arithmeticError := by
  cases hdest : s dest with
  | none =>
    refine deposit_of_none ?_
    rw [withdrawn, hdest, Option.map_none]
  | some v =>
    have hvalue : withdrawn sender ps s dest =
        some (v - (if dest = sender then 100 * (ps.length + 1) else 0) + 100 * ps.count dest) := by
      rw [withdrawn, hdest, Option.map_some]
    have hnext : Function.update (withdrawn sender ps s) dest (some (credited sender ps dest v)) =
        paidOut sender (ps ++ [dest]) s := by
      funext a
      by_cases ha : a = dest
      · subst ha
        rw [Function.update_self, paidOut, hdest, Option.map_some, List.length_append,
          List.length_singleton, List.count_append, List.count_singleton_self, credited]
        rfl
      · have hcount : (ps ++ [dest]).count a = ps.count a := by
          have hzero : [dest].count a = 0 := List.count_eq_zero.mpr (by simpa using ha)
          rw [List.count_append, hzero, Nat.add_zero]
        rw [Function.update_of_ne ha, withdrawn, paidOut, List.length_append,
          List.length_singleton, hcount]
    rw [deposit_of_some hvalue]
    simp only [← hnext]
    rfl

/-- One payment, and the rest of the loop. -/
theorem payAll_cons (dest : A) (qs : List A) (hb : s sender = some b)
    (hle : 100 * (ps.length + 1) ≤ b) :
    payAll sender (dest :: qs) (paidOut sender ps s) =
      match s dest with
      | none => .error .theAccountIsNotExisted
      | some v =>
        if credited sender ps dest v < 2 ^ 64 then
          payAll sender qs (paidOut sender (ps ++ [dest]) s)
        else .error .arithmeticError := by
  rw [payAll, withdraw_paidOut hb hle, ok_bind]
  dsimp only
  rw [deposit_withdrawn]
  cases s dest with
  | none => rfl
  | some v =>
    dsimp only
    split
    · rfl
    · rfl

/-- **The loop** succeeds if the payments can be made, and has made them. -/
theorem payAll_eq_ok (ps qs : List A) (hb : s sender = some b)
    (hle : 100 * (ps.length + qs.length) ≤ b) :
    payAll sender qs (paidOut sender ps s) = .ok s' ↔
      Payable sender s ps qs ∧ s' = paidOut sender (ps ++ qs) s := by
  induction qs generalizing ps with
  | nil =>
    rw [payAll, Payable, List.append_nil, true_and, Except.ok.injEq]
    exact eq_comm
  | cons dest qs ih =>
    rw [List.length_cons] at hle
    have hrest : 100 * ((ps ++ [dest]).length + qs.length) ≤ b := by
      rw [List.length_append, List.length_singleton]
      omega
    have ih := ih (ps ++ [dest]) hrest
    rw [List.append_assoc, List.singleton_append] at ih
    rw [payAll_cons dest qs hb (by omega), Payable]
    cases hdest : s dest with
    | none => simp
    | some v =>
      simp only [Option.some.injEq, exists_eq_left']
      by_cases hfit : credited sender ps dest v < 2 ^ 64
      · rw [if_pos hfit, ih, and_iff_right hfit]
      · rw [if_neg hfit]
        exact iff_of_false (by simp) fun h => hfit h.1.1

/-- The loop does not run out of coins. -/
theorem payAll_ne_insufficient (ps qs : List A) (hb : s sender = some b)
    (hle : 100 * (ps.length + qs.length) ≤ b) :
    payAll sender qs (paidOut sender ps s) ≠ .error .insufficientBalance := by
  induction qs generalizing ps with
  | nil => simp [payAll]
  | cons dest qs ih =>
    rw [List.length_cons] at hle
    rw [payAll_cons dest qs hb (by omega)]
    cases s dest with
    | none => simp
    | some v =>
      dsimp only
      split
      · exact ih (ps ++ [dest]) (by rw [List.length_append, List.length_singleton]; omega)
      · simp

/-- A sequence of payments that can not be made has one that can not. -/
theorem payable_iff : Payable sender s ps qs ↔
    (∀ dest ∈ qs, s dest ≠ none) ∧ ¬ ∃ rs dest v, rs ++ [dest] <+: qs ∧ s dest = some v ∧
      2 ^ 64 ≤ credited sender (ps ++ rs) dest v := by
  induction qs generalizing ps with
  | nil => simp [Payable]
  | cons dest qs ih =>
    rw [Payable, ih, List.forall_mem_cons]
    constructor
    · rintro ⟨⟨v, hv, hfit⟩, hstores, hrest⟩
      refine ⟨⟨by rw [hv]; simp, hstores⟩, ?_⟩
      rintro ⟨rs, dest', v', hpre, hv', hfull⟩
      cases rs with
      | nil =>
        obtain ⟨rfl, -⟩ := List.cons_prefix_cons.mp hpre
        cases hv.symm.trans hv'
        rw [List.append_nil] at hfull
        omega
      | cons r rs =>
        rw [List.cons_append, List.cons_prefix_cons] at hpre
        obtain ⟨rfl, hpre'⟩ := hpre
        exact hrest ⟨rs, dest', v', hpre', hv', by simpa using hfull⟩
    · rintro ⟨⟨hdest, hstores⟩, hnone⟩
      obtain ⟨v, hv⟩ := Option.ne_none_iff_exists'.mp hdest
      refine ⟨⟨v, hv, ?_⟩, hstores, ?_⟩
      · by_contra hfull
        exact hnone ⟨[], dest, v, by simp, hv, by simpa using hfull⟩
      · rintro ⟨rs, dest', v', hpre, hv', hfull⟩
        exact hnone ⟨dest :: rs, dest', v', List.cons_prefix_cons.mpr ⟨rfl, hpre⟩, hv',
          by simpa using hfull⟩

end Loop

/-! ### Transactions -/

section Transactions

variable {sender : A} {s s' : Storage A} {recipients : List A} {b : ℕ}

/-- The product of the amount and the length fits, so that the balance is compared with it. -/
theorem transferN_of_some (hb : s sender = some b) (hn : 100 * recipients.length < 2 ^ 64) :
    transferN sender recipients s =
      if 100 * recipients.length ≤ b then payAll sender recipients s else .ok s := by
  have htotal : arithmetic (mulU .trap 64 airdropAmount recipients.length) =
      .ok (100 * recipients.length) := faultAs_eq_ok.mpr (mulU_of_lt hn)
  rw [transferN, getBalance_of_some hb, ok_bind, htotal, ok_bind]

theorem transferN_of_none (hnone : s sender = none) :
    transferN sender recipients s = .error .theAccountIsNotExisted := by
  rw [transferN, getBalance_of_none hnone, error_bind]

/-- A batch that is covered succeeds if every recipient has a store and no credit overflows. -/
theorem transferN_eq_ok (hb : s sender = some b) (hn : 100 * recipients.length < 2 ^ 64)
    (hle : 100 * recipients.length ≤ b) :
    transferN sender recipients s = .ok s' ↔
      ((∀ dest ∈ recipients, s dest ≠ none) ∧ ¬ Overflows sender recipients s) ∧
        s' = paidOut sender recipients s := by
  have hloop : payAll sender recipients (paidOut sender [] s) = .ok s' ↔ _ :=
    payAll_eq_ok [] recipients hb (by simpa using hle)
  rw [paidOut_nil, payable_iff] at hloop
  rw [transferN_of_some hb hn, if_pos hle, hloop]
  rfl

/-- What the payments leave of the sum of all values. -/
theorem sum_paidOut [Fintype A] (hb : s sender = some b) (hle : 100 * recipients.length ≤ b)
    (hstores : ∀ dest ∈ recipients, s dest ≠ none) :
    ∑ a, (paidOut sender recipients s a).getD 0 = ∑ a, (s a).getD 0 := by
  have heach : ∀ a, (paidOut sender recipients s a).getD 0 +
      (if a = sender then 100 * recipients.length else 0) =
        (s a).getD 0 + 100 * recipients.count a := by
    intro a
    rw [paidOut]
    cases ha : s a with
    | none =>
      have hcount : recipients.count a = 0 :=
        List.count_eq_zero.mpr fun hmem => hstores a hmem ha
      have hne : a ≠ sender := by
        rintro rfl
        cases ha.symm.trans hb
      rw [hcount, if_neg hne]
      rfl
    | some v =>
      rw [Option.map_some, Option.getD_some, Option.getD_some]
      split
      · rename_i hsender
        have hv : v = b := Option.some_inj.mp (by rw [← ha, hsender, hb])
        omega
      · omega
  have hcount : ∑ a, recipients.count a = recipients.length := by
    have := Multiset.sum_count_eq_card (s := Finset.univ) (m := (recipients : Multiset A))
      fun a _ => Finset.mem_univ a
    simpa using this
  have hsum := Finset.sum_congr rfl fun a (_ : a ∈ Finset.univ) => heach a
  rw [Finset.sum_add_distrib, Finset.sum_add_distrib, Finset.sum_ite_eq',
    if_pos (Finset.mem_univ _), ← Finset.mul_sum, hcount] at hsum
  omega

/-- A batch that aborts, of a sender that has a store. -/
theorem exists_abort_iff (hb : s sender = some b) (hn : 100 * recipients.length < 2 ^ 64) :
    (∃ f, transferN sender recipients s = .error f) ↔ 100 * recipients.length ≤ b ∧
      ((∃ dest ∈ recipients, s dest = none) ∨ Overflows sender recipients s) := by
  by_cases hle : 100 * recipients.length ≤ b
  · rw [and_iff_right hle]
    have hok : ∀ s', transferN sender recipients s = .ok s' ↔ _ :=
      fun s' => transferN_eq_ok hb hn hle
    constructor
    · rintro ⟨f, hf⟩
      by_contra hnone
      rw [not_or] at hnone
      have hstores : ∀ dest ∈ recipients, s dest ≠ none :=
        fun dest hdest hs => hnone.1 ⟨dest, hdest, hs⟩
      cases hf.symm.trans ((hok _).mpr ⟨⟨hstores, hnone.2⟩, rfl⟩)
    · intro hfail
      cases htransfer : transferN sender recipients s with
      | error f => exact ⟨f, rfl⟩
      | ok s' =>
        obtain ⟨⟨hstores, hfits⟩, -⟩ := (hok s').mp htransfer
        rcases hfail with ⟨dest, hdest, hnone⟩ | hfull
        · exact absurd hnone (hstores dest hdest)
        · exact absurd hfull hfits
  · rw [transferN_of_some hb hn, if_neg hle]
    simp [hle]

end Transactions

/-- **The exact effect of `transfer_n`**, and when it aborts. For any store and any list whose sum
is a `u64`: it aborts if and only if the sender has no store, or the sender has the sum and a
recipient has no store or a credit in the sequence of payments does not fit. It does not abort for
want of coins. A sender without the sum succeeds and changes nothing; with it, every account ends
with what it had, less what it paid and more what it was paid. An abort changes nothing, and a
success keeps the sum of all values. -/
theorem transferN_effect [Fintype A] (sender : A) (recipients : List A) (s : Storage A)
    (hn : 100 * recipients.length < 2 ^ 64) :
    ((∃ f, transferN sender recipients s = .error f) ↔
      s sender = none ∨ ∃ b, s sender = some b ∧ 100 * recipients.length ≤ b ∧
        ((∃ dest ∈ recipients, s dest = none) ∨ Overflows sender recipients s)) ∧
    transferN sender recipients s ≠ .error .insufficientBalance ∧
    (∀ b, s sender = some b → b < 100 * recipients.length →
      transferN sender recipients s = .ok s) ∧
    (∀ b s', s sender = some b → 100 * recipients.length ≤ b →
      transferN sender recipients s = .ok s' →
      ∀ a, s' a = (s a).map fun v =>
        v - (if a = sender then 100 * recipients.length else 0) + 100 * recipients.count a) ∧
    (∀ f c', machine.Step ⟨s, 0⟩ (.call (.transferN sender recipients) (.error f)) c' →
      c'.state = s) ∧
    ∀ s', transferN sender recipients s = .ok s' → ∑ a, (s' a).getD 0 = ∑ a, (s a).getD 0 := by
  refine ⟨?_, ?_, fun b hb hlt => ?_, fun b s' hb hle h a => ?_, fun f c' hstep => ?_,
    fun s' h => ?_⟩
  · cases hsender : s sender with
    | none => simp [transferN_of_none hsender]
    | some b => simp [exists_abort_iff hsender hn]
  · cases hsender : s sender with
    | none => simp [transferN_of_none hsender]
    | some b =>
      rw [transferN_of_some hsender hn]
      split
      · rename_i hle
        have hloop := payAll_ne_insufficient [] recipients hsender (by simpa using hle)
        rwa [paidOut_nil] at hloop
      · simp
  · rw [transferN_of_some hb hn, if_neg (by omega)]
  · obtain ⟨-, rfl⟩ := (transferN_eq_ok hb hn hle).mp h
    rfl
  · cases hstep
    rfl
  · cases hsender : s sender with
    | none =>
      rw [transferN_of_none hsender] at h
      cases h
    | some b =>
      by_cases hle : 100 * recipients.length ≤ b
      · obtain ⟨⟨hstores, -⟩, rfl⟩ := (transferN_eq_ok hsender hn hle).mp h
        exact sum_paidOut hsender hle hstores
      · rw [transferN_of_some hsender hn, if_neg hle] at h
        cases h
        rfl

/-- The sender is among the recipients, and one of them is paid twice. -/
theorem transferN_effect_four : ∃ s' : Storage (Fin 3),
    transferN 0 [1, 0, 1, 2] (fun _ => some 400) = .ok s' ∧
    (∀ a, s' a = (some 400).map fun v =>
      v - (if a = 0 then 100 * [(1 : Fin 3), 0, 1, 2].length else 0) +
        100 * [(1 : Fin 3), 0, 1, 2].count a) ∧
    ∑ a, (s' a).getD 0 = ∑ _a : Fin 3, (some 400).getD 0 := by
  obtain ⟨s', hs'⟩ : ∃ s' : Storage (Fin 3),
      transferN 0 [1, 0, 1, 2] (fun _ => some 400) = .ok s' := ⟨_, rfl⟩
  obtain ⟨-, -, -, hexact, -, hsum⟩ :=
    transferN_effect (0 : Fin 3) [1, 0, 1, 2] (fun _ => some 400) (by decide)
  exact ⟨s', hs', hexact 400 s' rfl (by decide) hs', hsum s' hs'⟩

end AirDrop

end Aptos

end RelayContracts
