import RelayContracts.FixedWidth
import Mathlib.Data.List.GetD
import Mathlib.Data.Fintype.Basic

/-!
# The PREDA runtime, as far as the contracts see it

State lives in scopes. `@global` state exists once, `@shard` state once per shard, `@address`
state once per address, and an address belongs to one shard. There are `2 ^ k` shards, where `k` is
what `__block.get_shard_order()` returns. Address code sees the shard it runs on and may read the
global scope, so a contract state is one record with a field per variable, shard variables being
functions of the shard and address variables functions of the address.

Arrays are lists. The two operations on them that can change a length or go out of range are
defined here, since every contract with an array uses them.
-/

namespace RelayContracts

namespace Preda

/-- What the chain fixes for the contracts on it. -/
structure Chain (A : Type*) where
  /-- `__block.get_shard_order()`: there are `2 ^ shardOrder` shards. -/
  shardOrder : ℕ
  /-- The shard an address belongs to. -/
  shardOf : A → Fin (2 ^ shardOrder)
  /-- What integer arithmetic does on leaving the range of its type. -/
  overflow : Overflow

/-- One shard and two addresses. -/
def oneShard (p : Overflow) : Chain (Fin 2) := ⟨0, fun _ => 0, p⟩

/-- Two shards and two addresses, one on each. -/
def twoShards (p : Overflow) : Chain (Fin 2) := ⟨1, fun a => ⟨a, a.isLt⟩, p⟩

/-! ### Arrays -/

section Arrays

variable {α : Type*}

/-- `xs.set_length(n)`: drop what is past `n`, fill up to `n` with the default value. -/
def setLength (d : α) (n : ℕ) (xs : List α) : List α :=
  xs.take n ++ List.replicate (n - xs.length) d

@[simp] theorem length_setLength (d : α) (n : ℕ) (xs : List α) :
    (setLength d n xs).length = n := by
  simp only [setLength, List.length_append, List.length_take, List.length_replicate]
  omega

/-- Growing an array does not change what reading past the end as `d` sees. -/
theorem getD_setLength (d : α) {n : ℕ} {xs : List α} (hn : xs.length ≤ n) (i : ℕ) :
    (setLength d n xs).getD i d = xs.getD i d := by
  rw [setLength, List.take_of_length_le hn]
  rcases Nat.lt_or_ge i xs.length with hi | hi
  · rw [List.getD_append _ _ _ _ hi]
  · rw [List.getD_append_right _ _ _ _ hi, List.getD_eq_default _ _ hi,
      List.getD_eq_getElem?_getD, List.getElem?_replicate]
    split <;> rfl

/-- `xs[i] += v` on an array of `uintw`. -/
def addAt (p : Overflow) (w : ℕ) (xs : List ℕ) (i v : ℕ) : Except Fault (List ℕ) :=
  match xs[i]? with
  | none => .error .outOfRange
  | some x => do
    let y ← addU p w x v
    .ok (xs.set i y)

theorem addAt_ne_outOfRange {p : Overflow} {w : ℕ} {xs : List ℕ} {i v : ℕ} (hi : i < xs.length) :
    addAt p w xs i v ≠ .error .outOfRange := by
  rw [addAt, List.getElem?_eq_getElem hi]
  intro h
  rcases of_bind_eq_error h with h | ⟨y, -, h⟩
  · exact addU_ne_outOfRange h
  · cases h

/-- In range and with a sum that fits, `xs[i] += v` succeeds. -/
theorem exists_addAt {p : Overflow} {w : ℕ} {xs : List ℕ} {i v : ℕ} (hi : i < xs.length)
    (hfit : xs.getD i 0 + v < 2 ^ w) : ∃ ys, addAt p w xs i v = .ok ys := by
  rw [List.getD_eq_getElem _ _ hi] at hfit
  refine ⟨xs.set i (xs[i] + v), ?_⟩
  simp only [addAt, List.getElem?_eq_getElem hi, addU_of_lt hfit, ok_bind]

/-- A runtime that traps has checked that the sum fits. -/
theorem lt_of_addAt_trap {w : ℕ} {xs ys : List ℕ} {i v : ℕ} (h : addAt .trap w xs i v = .ok ys) :
    xs.getD i 0 + v < 2 ^ w := by
  rw [addAt] at h
  split at h
  · cases h
  · rename_i x hx
    obtain ⟨y, hy, -⟩ := exists_of_bind_eq_ok h
    rw [List.getD_eq_getElem?_getD, hx, Option.getD_some]
    exact (addU_trap_eq_ok.mp hy).1

theorem length_of_addAt {p : Overflow} {w : ℕ} {xs ys : List ℕ} {i v : ℕ}
    (h : addAt p w xs i v = .ok ys) : ys.length = xs.length := by
  rw [addAt] at h
  split at h
  · cases h
  · obtain ⟨y, -, hy⟩ := exists_of_bind_eq_ok h
    cases hy
    exact List.length_set

/-- Reading after `xs[i] += v`, where the sum fits. -/
theorem getD_of_addAt {p : Overflow} {w : ℕ} {xs ys : List ℕ} {i v : ℕ}
    (h : addAt p w xs i v = .ok ys) (hfit : xs.getD i 0 + v < 2 ^ w) (j : ℕ) :
    ys.getD j 0 = xs.getD j 0 + if j = i then v else 0 := by
  rw [addAt] at h
  split at h
  · cases h
  · rename_i x hx
    have hxi : xs.getD i 0 = x := by rw [List.getD_eq_getElem?_getD, hx, Option.getD_some]
    obtain ⟨y, hy, hys⟩ := exists_of_bind_eq_ok h
    rw [hxi] at hfit
    rw [addU_of_lt hfit] at hy
    cases hy
    cases hys
    by_cases hj : j = i
    · subst hj
      have hlt : j < xs.length := (List.getElem?_eq_some_iff.mp hx).1
      rw [if_pos rfl, hxi, List.getD_eq_getElem?_getD, List.getElem?_set_self hlt, Option.getD_some]
    · rw [if_neg hj, List.getD_eq_getElem?_getD, List.getElem?_set_ne (Ne.symm hj),
        List.getD_eq_getElem?_getD, Nat.add_zero]

end Arrays

end Preda

end RelayContracts
