import Mathlib.Algebra.BigOperators.Group.Finset.Piecewise
import Mathlib.Data.Fintype.BigOperators
import Mathlib.Tactic.Common

/-!
# Changing one account

A ledger is a function from accounts to amounts, and a contract changes it one account at a time,
with `Function.update`. A credit writes what was there and the amount; a debit writes something
that, with the amount, makes what was there. Stated so, a debit needs no subtraction, and the same
lemmas serve `ℕ`, where the contract has checked that it can subtract, and `ℤ`, where it need not.

A map of maps is changed at one pair of keys, by two updates (`update_update_apply`).
-/

namespace RelayContracts

variable {ι M : Type*} [DecidableEq ι]

section Account

variable [AddMonoid M] (f : ι → M) {a : ι} {v r : M}

theorem update_credit (a : ι) (v : M) (b : ι) :
    Function.update f a (f a + v) b = f b + if b = a then v else 0 := by
  by_cases hb : b = a
  · rw [hb, Function.update_self, if_pos rfl]
  · rw [Function.update_of_ne hb, if_neg hb, add_zero]

theorem update_debit (h : r + v = f a) (b : ι) :
    Function.update f a r b + (if b = a then v else 0) = f b := by
  by_cases hb : b = a
  · rw [hb, Function.update_self, if_pos rfl, h]
  · rw [Function.update_of_ne hb, if_neg hb, add_zero]

end Account

/-- Every account holds a `uint256`. -/
def InUint256 (f : ι → ℕ) : Prop := ∀ a, f a < 2 ^ 256

/-- Accounts stay in range, if what is written to one of them is. -/
theorem InUint256.update {f : ι → ℕ} (hf : InUint256 f) (a : ι) {v : ℕ} (hv : v < 2 ^ 256) :
    InUint256 (Function.update f a v) :=
  (Function.forall_update_iff f fun _ y => y < 2 ^ 256).mpr ⟨hv, fun x _ => hf x⟩

section Nested

variable {κ : Type*} [DecidableEq κ] (g : ι → κ → M)

theorem update_update_apply (b : ι) (q : κ) (v : M) (a : ι) (p : κ) :
    Function.update g b (Function.update (g b) q v) a p = if b = a ∧ q = p then v else g a p := by
  by_cases hb : a = b
  · obtain rfl := hb
    rw [Function.update_self, Function.update_apply]
    exact if_congr (by simp [eq_comm]) rfl rfl
  · rw [Function.update_of_ne hb, if_neg fun h => hb h.1.symm]

end Nested

section Total

variable [Fintype ι] [AddCommMonoid M] (f : ι → M) {a : ι} {v r : M}

/-- A credit adds to the sum of all accounts. -/
theorem sum_update_credit (a : ι) (v : M) :
    ∑ b, Function.update f a (f a + v) b = ∑ b, f b + v := by
  simp only [update_credit, Finset.sum_add_distrib, Finset.sum_ite_eq', Finset.mem_univ, if_true]

/-- A debit takes from the sum of all accounts. -/
theorem sum_update_debit (h : r + v = f a) :
    ∑ b, Function.update f a r b + v = ∑ b, f b := by
  rw [← Finset.sum_congr rfl fun b _ => update_debit f h b]
  simp only [Finset.sum_add_distrib, Finset.sum_ite_eq', Finset.mem_univ, if_true]

end Total

end RelayContracts
