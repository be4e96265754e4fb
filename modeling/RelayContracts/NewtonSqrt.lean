import Mathlib.Algebra.Order.Ring.Nat
import Mathlib.Data.Nat.Sqrt
import Mathlib.Tactic.Linarith
import RelayContracts.WhileLoop

/-!
# The integer square root by Newton's iteration

The loop `while z < y do (y, z) := (z, (x / z + z) / 2)`, with fuel, and what it computes. The
iterates decrease, so that `x` rounds are enough; they stay at or above the root, and where they
stop decreasing they have reached it.

At a width the loop starts from `(x + 1) / 2`, and this sum is the only one that can overflow: the
sum of a divisor of the loop and its quotient is never larger.

## Main results

* `newtonLoop_eq_sqrt` — the loop returns `Nat.sqrt x`
* `loops_newton` — it does so by coming to its end, without dividing by zero
* `sqrtU_trap` — at a width too, if `x` is not the largest value of the type
* `mulSqrtU_trap` — the product of two roots always fits
-/

namespace RelayContracts

/-- The iteration, with fuel. -/
def newtonLoop (x : ℕ) : ℕ → ℕ → ℕ → ℕ
  | 0, _, y => y
  | fuel + 1, z, y => if z < y then newtonLoop x fuel ((x / z + z) / 2) z else y

/-- An iterate is at or above the root. -/
theorem lt_newton_succ_sq {z : ℕ} (x : ℕ) (hz : 0 < z) :
    x < ((x / z + z) / 2 + 1) * ((x / z + z) / 2 + 1) := by
  have hdiv : x < z * (x / z + 1) := Nat.lt_mul_div_succ x hz
  set q := x / z
  have hmean : z + (q + 1) ≤ 2 * ((q + z) / 2 + 1) := by omega
  nlinarith [sq_nonneg ((z : ℤ) - (q + 1)), Nat.mul_le_mul hmean hmean]

/-- Where the iteration stops decreasing, it is at or below the root. -/
theorem sq_le_of_le_newton {x y : ℕ} (hy : 0 < y) (h : y ≤ (x / y + y) / 2) : y * y ≤ x := by
  have hq : y ≤ x / y := by omega
  exact (Nat.le_div_iff_mul_le hy).mp hq

/-- Where the iteration decreases, it does not reach zero. -/
theorem newton_pos {x y : ℕ} (hx : 0 < x) (hlt : (x / y + y) / 2 < y) :
    0 < (x / y + y) / 2 := by
  have hy : 2 ≤ y := by
    by_contra hy₂
    have hy : 0 < y := Nat.zero_lt_of_lt hlt
    obtain rfl : y = 1 := by omega
    rw [Nat.div_one] at hlt
    omega
  exact Nat.div_pos (hy.trans (Nat.le_add_left y _)) two_pos

/-- **The loop computes the integer square root**, if it starts at or above it. -/
theorem newtonLoop_eq_sqrt {x : ℕ} (hx : 0 < x) : ∀ {fuel y : ℕ}, y ≤ fuel → 0 < y →
    x < (y + 1) * (y + 1) → newtonLoop x fuel ((x / y + y) / 2) y = Nat.sqrt x
  | 0, y, hfuel, hy, _ => absurd hfuel (by omega)
  | fuel + 1, y, hfuel, hy, hroot => by
    rw [newtonLoop]
    by_cases hlt : (x / y + y) / 2 < y
    · rw [if_pos hlt]
      exact newtonLoop_eq_sqrt hx (by omega) (newton_pos hx hlt) (lt_newton_succ_sq x hy)
    · rw [if_neg hlt]
      exact Nat.eq_sqrt.mpr ⟨sq_le_of_le_newton hy (not_lt.mp hlt), hroot⟩

/-- The value that the loop starts with is the first iterate from `x`. -/
theorem newton_start {x : ℕ} (hx : 0 < x) : (x / x + x) / 2 = (x + 1) / 2 := by
  rw [Nat.div_self hx, Nat.add_comm]

/-- The loop as it is started, at `x` itself. -/
theorem newtonLoop_self (x : ℕ) : newtonLoop x x ((x + 1) / 2) x = Nat.sqrt x := by
  rcases Nat.eq_zero_or_pos x with rfl | hx
  · rfl
  · rw [← newton_start hx]
    exact newtonLoop_eq_sqrt hx le_rfl hx (by nlinarith)

/-- **The loop ends at the root**, in any arithmetic that computes its rounds at the divisors from
`1` to `x`. -/
theorem loops_newton {σ ε : Type} (cond : σ → Prop) {body : σ → Except ε σ} (st : ℕ → ℕ → σ)
    {x : ℕ} (hcond : ∀ z y, cond (st z y) ↔ z < y)
    (hbody : ∀ z y, 0 < z → z ≤ x → body (st z y) = .ok (st ((x / z + z) / 2) z)) :
    ∃ z, Loops cond body (st ((x + 1) / 2) x) (.ok (st z (Nat.sqrt x))) := by
  rcases Nat.eq_zero_or_pos x with rfl | hx
  · exact ⟨0, .exit fun h => absurd ((hcond 0 0).mp h) (Nat.lt_irrefl 0)⟩
  · have hround : ∀ s y,
        (0 < y ∧ y ≤ x ∧ x < (y + 1) * (y + 1) ∧ s = st ((x / y + y) / 2) y) → cond s →
        ∃ s', body s = .ok s' ∧
          ∃ z < y, 0 < z ∧ z ≤ x ∧ x < (z + 1) * (z + 1) ∧ s' = st ((x / z + z) / 2) z := by
      rintro s y ⟨hy, hyx, -, rfl⟩ hlt
      have hlt := (hcond _ y).mp hlt
      have hz := newton_pos hx hlt
      exact ⟨_, hbody _ y hz (by omega), _, hlt, hz, by omega, lt_newton_succ_sq x hy, rfl⟩
    obtain ⟨s', y, hloop, ⟨hy, -, hroot, rfl⟩, hend⟩ :=
      Loops.of_variant _ hround ⟨hx, le_rfl, by nlinarith, rfl⟩
    have hstop : y ≤ (x / y + y) / 2 := not_lt.mp fun hlt => hend ((hcond _ y).mpr hlt)
    have hsqrt : y = Nat.sqrt x := Nat.eq_sqrt.mpr ⟨sq_le_of_le_newton hy hstop, hroot⟩
    rw [newton_start hx] at hloop
    exact ⟨_, hsqrt ▸ hloop⟩

/-! ### At a width -/

/-- The loop at a width, with fuel. -/
def sqrtLoopU (p : Overflow) (w x : ℕ) : ℕ → ℕ → ℕ → Except Fault ℕ
  | 0, _, y => .ok y
  | fuel + 1, z, y =>
    if z < y then do
      let q ← divU x z
      let t ← addU p w q z
      sqrtLoopU p w x fuel (t / 2) z
    else .ok y

/-- The square root at a width. -/
def sqrtU (p : Overflow) (w x : ℕ) : Except Fault ℕ := do
  let t ← addU p w x 1
  sqrtLoopU p w x x (t / 2) x

/-- The product of two square roots at a width. -/
def mulSqrtU (p : Overflow) (w x y : ℕ) : Except Fault ℕ := do
  let a ← sqrtU p w x
  let b ← sqrtU p w y
  mulU p w a b

/-- The sum of a divisor and its quotient is largest at the divisor `1`. -/
theorem div_add_le {x z : ℕ} (hz : 0 < z) (hzx : z ≤ x) : x / z + z ≤ x + 1 := by
  have hq : 0 < x / z := Nat.div_pos hzx hz
  have hmul : z * (x / z) ≤ x := Nat.mul_div_le x z
  obtain ⟨q, hq⟩ := Nat.exists_eq_succ_of_ne_zero hq.ne'
  obtain ⟨w, rfl⟩ := Nat.exists_eq_succ_of_ne_zero hz.ne'
  rw [hq] at hmul ⊢
  nlinarith

/-- A round of the loop at a width. -/
def newtonStepU (p : Overflow) (w x : ℕ) : ℕ × ℕ → Except Fault (ℕ × ℕ)
  | (z, _) => do
    let q ← divU x z
    let t ← addU p w q z
    .ok (t / 2, z)

/-- The loop at a width, as it is started: `x + 1` fits, and the loop ends with `y = r`. -/
def SqrtEnds (p : Overflow) (w x r : ℕ) : Prop :=
  ∃ t z, addU p w x 1 = .ok t ∧
    Loops (fun s => s.1 < s.2) (newtonStepU p w x) (t / 2, x) (.ok (z, r))

/-- Enough fuel is as much as `y`: the loop with fuel returns what the loop ends with. -/
theorem sqrtLoopU_of_loops {p : Overflow} {w x fuel : ℕ} {s : ℕ × ℕ} {r : Except Fault (ℕ × ℕ)}
    (h : Loops (fun s => s.1 < s.2) (newtonStepU p w x) s r) (hfuel : s.2 ≤ fuel) :
    sqrtLoopU p w x fuel s.1 s.2 = r.map Prod.snd := by
  induction h generalizing fuel with
  | exit hcond =>
    cases fuel with
    | zero => rfl
    | succ fuel => exact if_neg hcond
  | @next s s' r hcond hbody _ ih =>
    obtain ⟨fuel, rfl⟩ := Nat.exists_eq_succ_of_ne_zero (show fuel ≠ 0 by omega)
    obtain ⟨q, hq, hbody⟩ := exists_of_bind_eq_ok hbody
    obtain ⟨t, ht, hbody⟩ := exists_of_bind_eq_ok hbody
    cases hbody
    rw [sqrtLoopU, if_pos hcond, hq, ok_bind, ht, ok_bind]
    exact ih (by dsimp only; omega)
  | @fault s e hcond hbody =>
    obtain ⟨fuel, rfl⟩ := Nat.exists_eq_succ_of_ne_zero (show fuel ≠ 0 by omega)
    rw [sqrtLoopU, if_pos hcond]
    rcases of_bind_eq_error hbody with hq | ⟨q, hq, hbody⟩
    · rw [hq]
      rfl
    · rcases of_bind_eq_error hbody with ht | ⟨t, -, hbody⟩
      · rw [hq, ok_bind, ht]
        rfl
      · cases hbody

/-- What the loop ends with is what `sqrtU` returns. -/
theorem SqrtEnds.sqrtU_eq {p : Overflow} {w x r : ℕ} (h : SqrtEnds p w x r) :
    sqrtU p w x = .ok r := by
  obtain ⟨t, z, ht, hloop⟩ := h
  rw [sqrtU, ht, ok_bind]
  exact sqrtLoopU_of_loops hloop le_rfl

/-- **The loop ends with the integer square root**, below the largest value of the type. No round
of it divides by zero or leaves the range. -/
theorem sqrtEnds {p : Overflow} {w x : ℕ} (hx : x + 1 < 2 ^ w) : SqrtEnds p w x (Nat.sqrt x) := by
  have hround : ∀ z y, 0 < z → z ≤ x →
      newtonStepU p w x (z, y) = .ok ((x / z + z) / 2, z) := by
    intro z y hz hzx
    rw [newtonStepU, divU_of_pos hz, ok_bind, addU_of_lt ((div_add_le hz hzx).trans_lt hx),
      ok_bind]
  obtain ⟨z, hloop⟩ := loops_newton (fun s => s.1 < s.2) Prod.mk (fun _ _ => Iff.rfl) hround
  exact ⟨x + 1, z, addU_of_lt hx, hloop⟩

/-- **`sqrtU` is the integer square root**, below the largest value of the type. -/
theorem sqrtU_eq {p : Overflow} {w x : ℕ} (hx : x + 1 < 2 ^ w) :
    sqrtU p w x = .ok (Nat.sqrt x) := (sqrtEnds hx).sqrtU_eq

/-- Where the sum traps, nothing else can go wrong. -/
theorem sqrtU_trap (w x : ℕ) :
    sqrtU .trap w x = if x + 1 < 2 ^ w then .ok (Nat.sqrt x) else .error .overflow := by
  split
  · exact sqrtU_eq ‹_›
  · rename_i hx
    rw [sqrtU, addU, if_neg hx]
    rfl

/-- The product of two square roots is below any bound on the two numbers. -/
theorem sqrt_mul_sqrt_lt {n x y : ℕ} (hx : x < n) (hy : y < n) :
    Nat.sqrt x * Nat.sqrt y < n := by
  have hsq : (Nat.sqrt x * Nat.sqrt y) * (Nat.sqrt x * Nat.sqrt y) < n * n := by
    calc (Nat.sqrt x * Nat.sqrt y) * (Nat.sqrt x * Nat.sqrt y)
        = (Nat.sqrt x * Nat.sqrt x) * (Nat.sqrt y * Nat.sqrt y) := Nat.mul_mul_mul_comm _ _ _ _
      _ ≤ x * y := Nat.mul_le_mul (Nat.sqrt_le x) (Nat.sqrt_le y)
      _ < n * n := Nat.mul_lt_mul_of_lt_of_le hx hy.le (Nat.zero_lt_of_lt hx)
  exact lt_of_mul_self_lt_mul_self₀ (Nat.zero_le n) hsq

/-- **The product of two square roots**, at a width that traps. -/
theorem mulSqrtU_trap (w x y : ℕ) :
    mulSqrtU .trap w x y = if x + 1 < 2 ^ w ∧ y + 1 < 2 ^ w then .ok (Nat.sqrt x * Nat.sqrt y)
      else .error .overflow := by
  rw [mulSqrtU, sqrtU_trap, sqrtU_trap]
  by_cases hx : x + 1 < 2 ^ w
  · by_cases hy : y + 1 < 2 ^ w
    · have hfit : Nat.sqrt x * Nat.sqrt y < 2 ^ w :=
        sqrt_mul_sqrt_lt ((Nat.lt_succ_self x).trans hx) ((Nat.lt_succ_self y).trans hy)
      rw [if_pos hx, if_pos hy, if_pos ⟨hx, hy⟩, ok_bind, ok_bind, mulU_of_lt hfit]
    · rw [if_pos hx, if_neg hy, if_neg fun hxy => hy hxy.2, ok_bind, error_bind]
  · rw [if_neg hx, error_bind, if_neg fun hxy => hx hxy.1]

theorem mulSqrtU_trap_eq_ok {w x y r : ℕ} :
    mulSqrtU .trap w x y = .ok r ↔
      x + 1 < 2 ^ w ∧ y + 1 < 2 ^ w ∧ r = Nat.sqrt x * Nat.sqrt y := by
  rw [mulSqrtU_trap]
  split
  · rename_i hxy
    simp [hxy.1, hxy.2, eq_comm]
  · rename_i hxy
    simp only [reduceCtorEq, false_iff]
    rintro ⟨hx, hy, -⟩
    exact hxy ⟨hx, hy⟩

end RelayContracts
