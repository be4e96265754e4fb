import RelayContracts.FixedWidth
import Mathlib.Algebra.BigOperators.Group.List.Basic
import Mathlib.Algebra.BigOperators.Ring.Finset
import Mathlib.Data.Fintype.BigOperators
import Mathlib.Algebra.Order.BigOperators.Group.Finset

/-!
# Lists of payments

The Solidity AirDrop contracts, relayed and synchronous, share their `Payment` struct and the loop
that sums a list of payments up. Both are here, with what a list of payments amounts to, in total
and for one receiver.

`uint` is `uint256`, and its arithmetic is checked.
-/

namespace RelayContracts

namespace Solidity

/-- `struct Payment`. -/
structure Payment (A : Type) where
  /-- The field `to`: the receiver. -/
  dest : A
  /-- The amount, a `uint`. -/
  amount : ℕ
  deriving DecidableEq, Repr

/-- The arguments of a `transfer_n` call. -/
structure Batch (A : Type) where
  /-- `_scope`: the address that pays. -/
  scope : A
  /-- `recipients`. -/
  recipients : List (Payment A)
  deriving DecidableEq, Repr

variable {A : Type}

/-- The loop that sums the payments up, from a total so far. -/
def sumAmounts : List (Payment A) → ℕ → Except Fault ℕ
  | [], total => .ok total
  | p :: ps, total => do
    -- `require(recipients[i].amount >= 0)` holds of every `uint`
    let total ← addU .trap 256 total p.amount
    sumAmounts ps total

/-- What a list of payments amounts to. -/
def totalAmount (ps : List (Payment A)) : ℕ := (ps.map Payment.amount).sum

@[simp] theorem totalAmount_nil : totalAmount ([] : List (Payment A)) = 0 := rfl

@[simp] theorem totalAmount_cons (p : Payment A) (ps : List (Payment A)) :
    totalAmount (p :: ps) = p.amount + totalAmount ps := List.sum_cons

/-- The loop succeeds if the sum fits. -/
theorem sumAmounts_eq_ok {ps : List (Payment A)} {t₀ t : ℕ} (ht₀ : t₀ < 2 ^ 256) :
    sumAmounts ps t₀ = .ok t ↔ t₀ + totalAmount ps < 2 ^ 256 ∧ t = t₀ + totalAmount ps := by
  induction ps generalizing t₀ with
  | nil =>
    rw [sumAmounts, totalAmount_nil, Nat.add_zero, Except.ok.injEq]
    exact ⟨fun h => ⟨ht₀, h.symm⟩, fun h => h.2.symm⟩
  | cons p ps ih =>
    rw [sumAmounts, totalAmount_cons, ← Nat.add_assoc]
    by_cases hfit : t₀ + p.amount < 2 ^ 256
    · rw [addU_of_lt hfit]
      exact ih hfit
    · constructor
      · intro h
        obtain ⟨t₁, h₁, -⟩ := exists_of_bind_eq_ok h
        exact absurd (addU_trap_eq_ok.mp h₁).1 hfit
      · rintro ⟨hlt, -⟩
        omega

section Received

variable [DecidableEq A]

/-- What a list of payments has for one receiver. -/
def received (a : A) (ps : List (Payment A)) : ℕ :=
  (ps.map fun p => if a = p.dest then p.amount else 0).sum

@[simp] theorem received_nil (a : A) : received a [] = 0 := rfl

@[simp] theorem received_cons (a : A) (p : Payment A) (ps : List (Payment A)) :
    received a (p :: ps) = (if a = p.dest then p.amount else 0) + received a ps := List.sum_cons

theorem received_append (a : A) (ps qs : List (Payment A)) :
    received a (ps ++ qs) = received a ps + received a qs := by
  simp [received]

/-- A balance that reaches a bound does so with a payment to its address. -/
theorem exists_credit_of_le_received {a : A} {ps : List (Payment A)} {b n : ℕ} (hb : b < n)
    (hn : n ≤ b + received a ps) :
    ∃ qs q, qs ++ [q] <+: ps ∧ q.dest = a ∧ n ≤ b + received a (qs ++ [q]) := by
  induction ps using List.reverseRecOn with
  | nil =>
    rw [received_nil] at hn
    omega
  | append_singleton ps p ih =>
    by_cases ha : a = p.dest
    · exact ⟨ps, p, List.prefix_rfl, ha.symm, hn⟩
    · rw [received_append, received_cons, if_neg ha] at hn
      obtain ⟨qs, q, hpre, hq⟩ := ih hn
      exact ⟨qs, q, hpre.trans (List.prefix_append ps [p]), hq⟩

theorem received_le_totalAmount (a : A) (ps : List (Payment A)) :
    received a ps ≤ totalAmount ps := by
  induction ps with
  | nil => exact Nat.le_refl 0
  | cons p ps ih =>
    rw [received_cons, totalAmount_cons]
    split <;> omega

/-- One receiver does not get everything if another gets something. -/
theorem received_lt_totalAmount_iff {a : A} {ps : List (Payment A)} :
    received a ps < totalAmount ps ↔ ∃ p ∈ ps, 0 < p.amount ∧ p.dest ≠ a := by
  induction ps with
  | nil => simp
  | cons p ps ih =>
    have hle := received_le_totalAmount a ps
    rw [received_cons, totalAmount_cons, List.exists_mem_cons_iff, ← ih]
    by_cases ha : a = p.dest
    · simp [ha]
    · rw [if_neg ha]
      simp only [Ne.symm ha, ne_eq, not_false_eq_true, and_true]
      omega

/-- The receivers between them receive the total. -/
theorem sum_received [Fintype A] (ps : List (Payment A)) :
    ∑ a, received a ps = totalAmount ps := by
  induction ps with
  | nil => simp
  | cons p ps ih =>
    simp only [received_cons, totalAmount_cons, Finset.sum_add_distrib, ih, Finset.sum_ite_eq',
      Finset.mem_univ, if_true]

/-- What a batch takes from an address. -/
def Batch.paid (a : A) (t : Batch A) : ℕ :=
  if a = t.scope then totalAmount t.recipients else 0

/-- What a batch has for an address. -/
def Batch.received (a : A) (t : Batch A) : ℕ := Solidity.received a t.recipients

/-- What a collection of batches takes from an address. -/
def paidBy (a : A) (ts : List (Batch A)) : ℕ := (ts.map (Batch.paid a)).sum

/-- What a collection of batches has for an address. -/
def receivedBy (a : A) (ts : List (Batch A)) : ℕ := (ts.map (Batch.received a)).sum

@[simp] theorem paidBy_cons (a : A) (t : Batch A) (ts : List (Batch A)) :
    paidBy a (t :: ts) = t.paid a + paidBy a ts := List.sum_cons

@[simp] theorem receivedBy_cons (a : A) (t : Batch A) (ts : List (Batch A)) :
    receivedBy a (t :: ts) = t.received a + receivedBy a ts := List.sum_cons

theorem Batch.paid_scope (t : Batch A) : t.paid t.scope = totalAmount t.recipients := if_pos rfl

/-- What a batch takes from all addresses together. -/
theorem Batch.sum_paid [Fintype A] (t : Batch A) : ∑ a, t.paid a = totalAmount t.recipients := by
  simp only [Batch.paid, Finset.sum_ite_eq', Finset.mem_univ, if_true]

/-- What a batch brings is what it takes. -/
theorem Batch.sum_received [Fintype A] (t : Batch A) :
    ∑ a, t.received a = totalAmount t.recipients :=
  Solidity.sum_received t.recipients

/-- Every address can pay for all its batches from what it has at the start. -/
def Affordable (b : A → ℕ) (ts : List (Batch A)) : Prop := ∀ a, paidBy a ts ≤ b a

end Received

end Solidity

end RelayContracts
