import Mathlib.Data.Nat.Notation
import Mathlib.Tactic.Common

/-!
# Scanning a list for its first maximum

The tallying contracts all end in the same loop: run over the candidates with a best-so-far,
replace it when a candidate is *strictly* better. `scanMax` is that loop, with what is reported
about a candidate left open, and `scanMax_cases` says what it finds: the first candidate of
maximal weight, or what it started with if no candidate beats the initial weight.
-/

namespace RelayContracts

variable {α β : Type*}

/-- One pass over `xs` with the best value so far and its weight, replacing both at a strictly
greater weight. -/
def scanMax (wt : α → ℕ) (out : α → β) : List α → β → ℕ → β × ℕ
  | [], best, w => (best, w)
  | x :: xs, best, w =>
    if w < wt x then scanMax wt out xs (out x) (wt x) else scanMax wt out xs best w

/-- `i` is the least index below `n` at which `f` is maximal. -/
structure IsFirstMax (f : ℕ → ℕ) (n i : ℕ) : Prop where
  /-- It is an index. -/
  lt : i < n
  /-- No index does better. -/
  le : ∀ j < n, f j ≤ f i
  /-- Every earlier index does worse. -/
  first : ∀ j < i, f j < f i

/-- What the scan of a tail finds, seen from the whole list. -/
private theorem isFirstMax_succ {f : ℕ → ℕ} {n i : ℕ} (h : IsFirstMax (fun j => f (j + 1)) n i)
    (h0 : f 0 < f (i + 1)) : IsFirstMax f (n + 1) (i + 1) := by
  refine ⟨Nat.succ_lt_succ h.lt, fun j hj => ?_, fun j hj => ?_⟩
  · cases j with
    | zero => exact Nat.le_of_lt h0
    | succ j => exact h.le j (Nat.lt_of_succ_lt_succ hj)
  · cases j with
    | zero => exact h0
    | succ j => exact h.first j (Nat.lt_of_succ_lt_succ hj)

/-- **What the scan finds.** Either no weight exceeds the initial one and the scan returns what it
started with, or it returns the first candidate of maximal weight, and that weight exceeds the
initial one. The weights are given as a function of the index. -/
theorem scanMax_cases (wt : α → ℕ) (out : α → β) :
    ∀ (xs : List α) (f : ℕ → ℕ), (∀ i (hi : i < xs.length), wt xs[i] = f i) → ∀ (best : β) (w : ℕ),
      ((∀ i < xs.length, f i ≤ w) ∧ scanMax wt out xs best w = (best, w)) ∨
        ∃ (i : ℕ) (hi : i < xs.length), IsFirstMax f xs.length i ∧ w < f i ∧
          scanMax wt out xs best w = (out xs[i], f i)
  | [], f, _, best, w => .inl ⟨fun i hi => absurd hi (Nat.not_lt_zero i), rfl⟩
  | x :: xs, f, hf, best, w => by
    have h0 : wt x = f 0 := hf 0 (Nat.succ_pos _)
    have hf' : ∀ i (hi : i < xs.length), wt xs[i] = f (i + 1) :=
      fun i hi => hf (i + 1) (Nat.succ_lt_succ hi)
    by_cases hx : w < wt x
    · rw [scanMax, if_pos hx]
      right
      rcases scanMax_cases wt out xs _ hf' (out x) (wt x) with ⟨hle, hr⟩ | ⟨i, hi, hmax, hlt, hr⟩
      · refine ⟨0, Nat.succ_pos _, ⟨Nat.succ_pos _, fun j hj => ?_, fun j hj => ?_⟩, h0 ▸ hx, ?_⟩
        · cases j with
          | zero => exact Nat.le_refl _
          | succ j => exact h0 ▸ hle j (Nat.lt_of_succ_lt_succ hj)
        · exact absurd hj (Nat.not_lt_zero j)
        · rw [hr, ← h0]
          rfl
      · refine ⟨i + 1, Nat.succ_lt_succ hi, isFirstMax_succ hmax (h0 ▸ hlt),
          Nat.lt_trans hx hlt, ?_⟩
        rw [hr]
        rfl
    · rw [scanMax, if_neg hx]
      rcases scanMax_cases wt out xs _ hf' best w with ⟨hle, hr⟩ | ⟨i, hi, hmax, hlt, hr⟩
      · refine .inl ⟨fun j hj => ?_, hr⟩
        cases j with
        | zero => exact h0 ▸ Nat.not_lt.mp hx
        | succ j => exact hle j (Nat.lt_of_succ_lt_succ hj)
      · have hlt0 : f 0 < f (i + 1) := Nat.lt_of_le_of_lt (h0 ▸ Nat.not_lt.mp hx) hlt
        refine .inr ⟨i + 1, Nat.succ_lt_succ hi, isFirstMax_succ hmax hlt0, hlt, ?_⟩
        rw [hr]
        rfl

end RelayContracts
