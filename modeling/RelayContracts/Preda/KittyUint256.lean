import RelayContracts.Preda.KittyHistory

/-!
# The kitty contract over `uint256`

The contract of `Kitty_uint256.prd`. It is a copy of `Kitty.prd` with genes of type `uint256`, and
one line of the newborn fragment is another: where `Kitty.prd` has `newBorns.push(n)`, it has
`newBornNums++`. So its list `newBorns` is never written to (`newBorns_eq_nil`): every newborn gets
the key of position `0`, and there is never anything to register.

The number type makes no difference for genes in `[0, 2 ^ 256 - 2]` (`mixture_agrees`).

## Main results

* `Uint256.sqrt_eq` — `sqrt` is the integer square root here too
* `mixture_agrees` — the two files compute the same genes
* `newBorns_eq_nil` — nothing is entered for registration
-/

namespace RelayContracts

namespace Preda

namespace KittyBreeding

open RelayMachine

namespace Uint256

variable {p : Overflow}

/-- The loop of `sqrt`, with fuel. -/
def sqrtLoop (p : Overflow) (x : ℕ) : ℕ → ℕ → ℕ → Except Fault ℕ
  | 0, _, y => .ok y
  | fuel + 1, z, y =>
    if z < y then do
      let q ← divU x z
      let t ← addU p 256 q z
      sqrtLoop p x fuel (t / 2) z
    else .ok y

/-- `sqrt(x)`. -/
def sqrt (p : Overflow) (x : ℕ) : Except Fault ℕ := do
  let t ← addU p 256 x 1
  sqrtLoop p x x (t / 2) x

theorem sqrtLoop_eq (p : Overflow) (x : ℕ) : ∀ fuel z y,
    sqrtLoop p x fuel z y = sqrtLoopU p 256 x fuel z y
  | 0, _, _ => rfl
  | fuel + 1, z, y => by simp only [sqrtLoop, sqrtLoopU, sqrtLoop_eq p x fuel]

/-- It is the square root at this width. -/
theorem sqrt_eq_sqrtU (p : Overflow) : sqrt p = sqrtU p 256 := by
  funext x
  simp only [sqrt, sqrtU, sqrtLoop_eq]

/-- **`sqrt` is the integer square root**, below the largest value of the type. -/
theorem sqrt_eq {x : ℕ} (hx : x < 2 ^ 256 - 1) : sqrt p x = .ok (Nat.sqrt x) := by
  rw [sqrt_eq_sqrtU, sqrtU_eq (by omega)]

end Uint256

variable {A : Type}

/-- The variant of `Kitty_uint256.prd`: genes are a `uint256`, and a newborn is counted in
`newBornNums`. -/
def uint256 (p : Overflow) (A : Type) (k : ℕ) : Variant A ℕ k where
  mixture x y := do
    let a ← Uint256.sqrt p x
    let b ← Uint256.sqrt p y
    mulU p 256 a b
  enter shard _ st := do
    let n ← addU p 256 (st.newBornNums shard) 1
    .ok { st with newBornNums := Function.update st.newBornNums shard n }
  enter_frame h := by
    obtain ⟨n, -, h⟩ := exists_of_bind_eq_ok h
    cases h
    exact ⟨rfl, rfl, rfl⟩

/-- **The two files compute the same genes** from genes in `[0, 2 ^ 256 - 2]`. -/
theorem mixture_agrees (p : Overflow) (k : ℕ) {x y : ℕ} (hx : x ≤ 2 ^ 256 - 2)
    (hy : y ≤ 2 ^ 256 - 2) :
    ∃ n : ℕ, (uint256 p A k).mixture x y = .ok n ∧ (bigint A k).mixture x y = .ok (n : ℤ) := by
  have hx : x < 2 ^ 256 - 1 := by omega
  have hy : y < 2 ^ 256 - 1 := by omega
  refine ⟨Nat.sqrt x * Nat.sqrt y, ?_, ?_⟩
  · simp only [uint256, Uint256.sqrt_eq hx, Uint256.sqrt_eq hy, ok_bind,
      mulU_of_lt (sqrt_mul_sqrt_lt (Nat.lt_of_lt_pred hx) (Nat.lt_of_lt_pred hy))]
  · simp only [bigint, sqrt_natCast, Nat.cast_mul]

variable [DecidableEq A]

/-- The contract of `Kitty_uint256.prd`. -/
abbrev kittyUint256 (X : Chain A) :
    Machine (State A ℕ X.shardOrder) (Call A ℕ X.shardOrder) (Relay A ℕ) Unit Fault :=
  machine X (uint256 X.overflow A X.shardOrder)

/-- **Nothing is entered for registration.** -/
theorem newBorns_eq_nil {X : Chain A}
    {G : History A ℕ X.shardOrder → Config (State A ℕ X.shardOrder) (Relay A ℕ) →
      Event (Call A ℕ X.shardOrder) (Relay A ℕ) Unit Fault → Prop}
    {h : History A ℕ X.shardOrder} {c : Config (State A ℕ X.shardOrder) (Relay A ℕ)}
    (hr : (kittyUint256 X).Run G ⟨deployed A ℕ X.shardOrder, 0⟩ h c)
    (shard : Fin (2 ^ X.shardOrder)) : c.state.newBorns shard = [] := by
  revert shard
  refine hr.invariant (I := fun _ c => ∀ shard, c.state.newBorns shard = []) (fun _ => rfl)
    ?_ ?_ ?_ ?_
  · intro h c k eff _ ih _ hk shard
    cases called_of_ok hk with
    | register hsome => exact absurd (ih _) hsome
    | _ => exact ih shard
  · intro h c k f _ ih _ _
    exact ih
  · intro h st r rest eff _ ih _ hk shard
    cases delivered_of_ok hk with
    | storeNewBorn hid hent =>
      obtain ⟨n, -, hent⟩ := exists_of_bind_eq_ok hent
      cases hent
      exact ih shard
    | _ => exact ih shard
  · intro h st r rest f _ ih _ _
    exact ih

end KittyBreeding

end Preda

end RelayContracts
