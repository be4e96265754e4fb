import RelayContracts.Aptos.Kitty
import RelayContracts.Sei.Kitty
import RelayContracts.Sui.Kitty

/-!
# The arithmetic of the genes

Every kitty contract has its own `sqrt`, the same loop at another width: `u64` on Aptos, `u128` on
Sui, `uint256` on Sei and Crystality (which shares the functions of the Sei contract here), and
`bigint` on PREDA. A newborn gets the product of the roots of its parents' genes.

`sqrt_isGreatest` says that all of them are the integer square root, and that the loop comes to its
end. `genes_bounded` says what follows for the genes: the product does not exceed the larger of the
two, so that no gene on Sui ever exceeds those that were minted.

## Main definitions

* `IntegerSqrt` — what a `sqrt` at a width does
* `GeneMix` — what mixing genes does at a width
-/

namespace RelayContracts

namespace KittyArithmetic

open RelayMachine

/-! ### Roots -/

/-- A function is the integer square root at a width, and fails with `e` at the largest value. -/
structure IntegerSqrt {ε : Type} (w : ℕ) (e : ε) (sqrt : ℕ → Except ε ℕ) : Prop where
  /-- Below the largest value the loop ends, without a division by zero and without leaving the
  range, and the function returns the largest `r` with `r * r ≤ x`. -/
  of_lt : ∀ x, x < 2 ^ w - 1 →
    ∃ r, sqrt x = .ok r ∧ SqrtEnds .trap w x r ∧ IsGreatest {q | q * q ≤ x} r
  /-- At the largest value the sum `x + 1` overflows. -/
  at_top : addU .trap w (2 ^ w - 1) 1 = .error .overflow ∧ sqrt (2 ^ w - 1) = .error e

theorem isGreatest_sqrt (x : ℕ) : IsGreatest {q | q * q ≤ x} (Nat.sqrt x) :=
  ⟨Nat.sqrt_le x, fun _ hq => Nat.le_sqrt.mpr hq⟩

/-- A function that computes `sqrtU`, with its own name for the fault. -/
theorem IntegerSqrt.of_sqrtU {ε : Type} {w : ℕ} {e : ε} {sqrt : ℕ → Except ε ℕ}
    (hok : ∀ x r, sqrtU .trap w x = .ok r → sqrt x = .ok r)
    (herror : ∀ x, sqrtU .trap w x = .error .overflow → sqrt x = .error e) :
    IntegerSqrt w e sqrt where
  of_lt x hx := by
    have hends := sqrtEnds (p := .trap) (show x + 1 < 2 ^ w by omega)
    exact ⟨Nat.sqrt x, hok x _ hends.sqrtU_eq, hends, isGreatest_sqrt x⟩
  at_top := by
    have htop : ¬ 2 ^ w - 1 + 1 < 2 ^ w := by omega
    refine ⟨?_, herror _ ?_⟩
    · rw [addU, if_neg htop]
    · rw [sqrtU_trap, if_neg htop]

/-- On Move any fault is an abort of the same kind. -/
theorem integerSqrt_faultAs {ε : Type} (w : ℕ) (e : ε) :
    IntegerSqrt w e fun x => faultAs e (sqrtU .trap w x) := by
  refine .of_sqrtU (fun x r h => ?_) fun x h => ?_
  · rw [h]
    rfl
  · rw [h]
    rfl

/-- A round of the loop on `bigint`. The division fails at zero. -/
def newtonStep (x : ℤ) : ℤ × ℤ → Except Fault (ℤ × ℤ)
  | (z, _) => if z = 0 then .error .divisionByZero else .ok ((x / z + z) / 2, z)

/-- The loop on `bigint` ends with what `sqrt` returns. -/
theorem loops_bigint (x : ℕ) :
    ∃ z, Loops (fun s => s.1 < s.2) (newtonStep x) (((x : ℤ) + 1) / 2, (x : ℤ))
      (.ok (z, Preda.KittyBreeding.sqrt x)) := by
  have hround : ∀ z y : ℕ, 0 < z → z ≤ x →
      newtonStep x ((z : ℤ), (y : ℤ)) = .ok ((((x / z + z) / 2 : ℕ) : ℤ), (z : ℤ)) := by
    intro z y hz _
    rw [newtonStep, if_neg (by omega)]
    push_cast
    rfl
  obtain ⟨z, hloop⟩ := loops_newton (fun s => s.1 < s.2) (fun z y : ℕ => ((z : ℤ), (y : ℤ)))
    (fun _ _ => Int.ofNat_lt) hround
  refine ⟨z, ?_⟩
  rw [Preda.KittyBreeding.sqrt_natCast]
  push_cast at hloop
  exact hloop

theorem sqrt_aptos : IntegerSqrt 64 .arithmeticError Aptos.KittyBreeding.sqrt :=
  integerSqrt_faultAs 64 _

theorem sqrt_sui : IntegerSqrt 128 .arithmeticError Sui.KittyBreeding.sqrt :=
  integerSqrt_faultAs 128 _

theorem sqrt_sei : IntegerSqrt 256 .overflow Sei.KittyBreeding.sqrt := by
  have heq : Sei.KittyBreeding.sqrt = sqrtU .trap 256 := by
    funext x
    rw [Sei.KittyBreeding.sqrt, Preda.KittyBreeding.Uint256.sqrt_eq_sqrtU]
  rw [heq]
  exact .of_sqrtU (fun _ _ h => h) fun _ h => h

/-- **`sqrt` is the integer square root** in every kitty contract: on Aptos, on Sui, on Sei and
Crystality, and for every `bigint` that is not negative on PREDA. -/
theorem sqrt_isGreatest :
    IntegerSqrt 64 .arithmeticError Aptos.KittyBreeding.sqrt ∧
    IntegerSqrt 128 .arithmeticError Sui.KittyBreeding.sqrt ∧
    IntegerSqrt 256 .overflow Sei.KittyBreeding.sqrt ∧
    ∀ x : ℤ, 0 ≤ x →
      (∃ z, Loops (fun s => s.1 < s.2) (newtonStep x) ((x + 1) / 2, x)
        (.ok (z, Preda.KittyBreeding.sqrt x))) ∧
      IsGreatest {q : ℤ | q * q ≤ x} (Preda.KittyBreeding.sqrt x) := by
  refine ⟨sqrt_aptos, sqrt_sui, sqrt_sei, fun x hx => ?_⟩
  obtain ⟨n, rfl⟩ := Int.eq_ofNat_of_zero_le hx
  refine ⟨loops_bigint n, ?_, fun q hq => ?_⟩
  · rw [Preda.KittyBreeding.sqrt_natCast]
    show ((Nat.sqrt n : ℕ) : ℤ) * (Nat.sqrt n : ℕ) ≤ n
    exact_mod_cast Nat.sqrt_le n
  · rw [Preda.KittyBreeding.sqrt_natCast]
    have hq : q * q ≤ n := hq
    have habs : q.natAbs * q.natAbs ≤ n := by
      rw [← Int.natAbs_mul_self] at hq
      exact Int.ofNat_le.mp hq
    have := Nat.le_sqrt.mpr habs
    omega

/-- The root of `10` on Aptos, and of a `bigint` beyond every width. -/
theorem sqrt_isGreatest_ten :
    (∃ r, Aptos.KittyBreeding.sqrt 10 = .ok r ∧ SqrtEnds .trap 64 10 r ∧
      IsGreatest {q | q * q ≤ 10} r) ∧
    IsGreatest {q : ℤ | q * q ≤ 2 ^ 256} (Preda.KittyBreeding.sqrt (2 ^ 256)) :=
  ⟨sqrt_isGreatest.1.of_lt 10 (by decide), (sqrt_isGreatest.2.2.2 (2 ^ 256) (by decide)).2⟩

/-! ### Mixtures -/

/-- The product of two roots is at most the larger of the two numbers. -/
theorem sqrt_mul_sqrt_le_max (a b : ℕ) : Nat.sqrt a * Nat.sqrt b ≤ max a b :=
  Nat.le_of_lt_succ (sqrt_mul_sqrt_lt (Nat.lt_succ_of_le (le_max_left a b))
    (Nat.lt_succ_of_le (le_max_right a b)))

/-- A function mixes the genes of two parents at a width, with this `sqrt`. -/
structure GeneMix {ε : Type} (w : ℕ) (sqrt : ℕ → Except ε ℕ) (mix : ℕ → ℕ → Except ε ℕ) :
    Prop where
  /-- The mixture is the product of the roots, which fits, and is at most the larger gene. -/
  of_lt : ∀ a b, a < 2 ^ w - 1 → b < 2 ^ w - 1 → ∃ r s, sqrt a = .ok r ∧ sqrt b = .ok s ∧
    mix a b = .ok (r * s) ∧ r * s < 2 ^ w ∧ r * s ≤ max a b
  /-- It does not matter which parent is which. -/
  symm : ∀ a b, a < 2 ^ w - 1 → b < 2 ^ w - 1 → mix a b = mix b a
  /-- Larger genes have larger mixtures. -/
  mono : ∀ a b a' b' g g', a ≤ a' → b ≤ b' → a' < 2 ^ w - 1 → b' < 2 ^ w - 1 →
    mix a b = .ok g → mix a' b' = .ok g' → g ≤ g'

theorem GeneMix.of_sqrt {ε : Type} {w : ℕ} {e : ε} {sqrt : ℕ → Except ε ℕ}
    {mix : ℕ → ℕ → Except ε ℕ} (hsqrt : IntegerSqrt w e sqrt)
    (hmix : ∀ {a b g}, mix a b = .ok g ↔
      a < 2 ^ w - 1 ∧ b < 2 ^ w - 1 ∧ g = Nat.sqrt a * Nat.sqrt b) :
    GeneMix w sqrt mix where
  of_lt a b ha hb := by
    have hroot : ∀ x, x < 2 ^ w - 1 → sqrt x = .ok (Nat.sqrt x) := by
      intro x hx
      obtain ⟨r, hr, -, hgreatest⟩ := hsqrt.of_lt x hx
      rw [hr, hgreatest.unique (isGreatest_sqrt x)]
    have hfit := sqrt_mul_sqrt_lt ha hb
    exact ⟨_, _, hroot a ha, hroot b hb, hmix.mpr ⟨ha, hb, rfl⟩, by omega,
      sqrt_mul_sqrt_le_max a b⟩
  symm a b ha hb := by
    rw [hmix.mpr ⟨ha, hb, rfl⟩, hmix.mpr ⟨hb, ha, rfl⟩, Nat.mul_comm]
  mono a b a' b' g g' ha hb _ _ hg hg' := by
    obtain ⟨-, -, rfl⟩ := hmix.mp hg
    obtain ⟨-, -, rfl⟩ := hmix.mp hg'
    exact Nat.mul_le_mul (Nat.sqrt_le_sqrt ha) (Nat.sqrt_le_sqrt hb)

/-! ### The genes of a run on Sui -/

section Sui

open Sui.KittyBreeding

variable {A I : Type} [DecidableEq A] [DecidableEq I] [Zero I] {G : ℕ}

/-- No gene is larger than `G`. -/
structure GenesLe (G : ℕ) (st : Store A I) : Prop where
  /-- The genes within the kitties. -/
  kitties : ∀ {i o k}, st.kitties i = some (o, k) → k.gene.geneId ≤ G
  /-- The genes that were provided. -/
  genes : ∀ {i o g}, st.genes i = some (o, g) → g.geneId ≤ G

omit [DecidableEq A] [Zero I] in
theorem GenesLe.addKitty {st : Store A I} (hst : GenesLe G st) {i : I} {o : A} {k : Kitty I}
    (hk : k.gene.geneId ≤ G) :
    GenesLe G { st with kitties := Function.update st.kitties i (some (o, k)) } where
  kitties hi := by
    rcases of_update_eq_some hi with ⟨-, heq⟩ | hi
    · cases heq
      exact hk
    · exact hst.kitties hi
  genes := hst.genes

/-- What a transaction keeps, if it does not mint a larger gene. -/
theorem GenesLe.execute {st st' : Store A I} (hst : GenesLe G st) {q : Call A I}
    (hmint : ∀ sender geneId newGene newKitty, q = .mint sender geneId newGene newKitty →
      geneId ≤ G)
    (hq : Sui.KittyBreeding.execute q st = .ok st') : GenesLe G st' := by
  cases q with
  | mint sender geneId newGene newKitty =>
    cases hq
    exact hst.addKitty (hmint sender geneId newGene newKitty rfl)
  | provideGene sender kitty recipient newGene =>
    obtain ⟨k, hk, rfl⟩ := provideGene_eq_ok.mp hq
    refine ⟨hst.kitties, fun hi => ?_⟩
    rcases of_update_eq_some hi with ⟨-, heq⟩ | hi
    · cases heq
      exact hst.kitties hk
    · exact hst.genes hi
  | breed sender gene kitty newGene newKitty =>
    obtain ⟨g, k, hg, hk, -, -, rfl⟩ := breed_eq_ok.mp hq
    have hle : Nat.sqrt k.gene.geneId * Nat.sqrt g.geneId ≤ G :=
      (sqrt_mul_sqrt_le_max _ _).trans (max_le (hst.kitties hk) (hst.genes hg))
    refine ⟨(hst.addKitty hle).kitties, fun {i o g'} hi => ?_⟩
    dsimp only at hi
    rw [Function.update_apply] at hi
    split at hi
    · cases hi
    · exact hst.genes hi

/-- The run lemma. -/
theorem genesLe_of_run {h : History A I} {c : Config (Store A I) Empty}
    (hr : machine.Run Anything ⟨genesis A I, 0⟩ h c)
    (hmint : ∀ sender geneId newGene newKitty,
      .mint sender geneId newGene newKitty ∈ calls h → geneId ≤ G) : GenesLe G c.state := by
  refine hr.call_invariant (I := fun h c => (∀ sender geneId newGene newKitty,
      .mint sender geneId newGene newKitty ∈ calls h → geneId ≤ G) → GenesLe G c.state) ?_ ?_ ?_
    hmint
  · refine fun _ => ⟨fun hi => ?_, fun hi => ?_⟩
    · cases hi
    · cases hi
  · intro h c q eff _ ih _ hq hmint
    obtain ⟨st', hst', rfl⟩ := call_eq_ok.mp hq
    rw [calls_cons_call] at hmint
    refine (ih fun _ _ _ _ hmem => hmint _ _ _ _ (List.mem_cons_of_mem _ hmem)).execute ?_ hst'
    rintro sender geneId newGene newKitty rfl
    exact hmint _ _ _ _ List.mem_cons_self
  · intro h c q f _ ih _ _ hmint
    rw [calls_cons_call] at hmint
    exact ih fun _ _ _ _ hmem => hmint _ _ _ _ (List.mem_cons_of_mem _ hmem)

omit [Zero I] in
/-- With genes below the largest value, `breed` does not fail in the arithmetic. -/
theorem GenesLe.breed_ne {st : Store A I} (hst : GenesLe G st) (hG : G < 2 ^ 128 - 1) (sender : A)
    (gene kitty newGene newKitty : I) :
    breed sender gene kitty newGene newKitty st ≠ .error .arithmeticError := by
  have hinput : ∀ {α : Type} (objects : I → Option (A × α)) (i : I),
      input sender objects i ≠ .error .arithmeticError := by
    intro α objects i
    rw [input]
    split
    · simp
    · split
      · simp
      · simp
  refine bind_ne_error (hinput _ _) fun g hg => bind_ne_error (hinput _ _) fun k hk => ?_
  have hgle := hst.genes (input_eq_ok.mp hg)
  have hkle := hst.kitties (input_eq_ok.mp hk)
  rw [generateGene_eq_ok.mpr ⟨by omega, by omega, rfl⟩]
  simp

/-- **Mixing does not inflate genes.** At each width the mixture of two genes fits, is at most the
larger of them, is symmetric and monotone; so in any run on Sui that mints no gene above `G`, below
the largest `u128`, no kitty and no gene exceeds `G`, and no `breed` fails in the arithmetic. -/
theorem genes_bounded :
    GeneMix 64 Aptos.KittyBreeding.sqrt Aptos.KittyBreeding.genesMix ∧
    GeneMix 128 Sui.KittyBreeding.sqrt Sui.KittyBreeding.generateGene ∧
    GeneMix 256 Sei.KittyBreeding.sqrt Sei.KittyBreeding.genesMix ∧
    ∀ (h : History A I) (c : Config (Store A I) Empty) (G : ℕ), G < 2 ^ 128 - 1 →
      machine.Run Anything ⟨genesis A I, 0⟩ h c →
      (∀ sender geneId newGene newKitty,
        .mint sender geneId newGene newKitty ∈ calls h → geneId ≤ G) →
      GenesLe G c.state ∧ ∀ sender gene kitty newGene newKitty,
        breed sender gene kitty newGene newKitty c.state ≠ .error .arithmeticError := by
  refine ⟨?_, ?_, ?_, ?_⟩
  · exact .of_sqrt sqrt_aptos Aptos.KittyBreeding.genesMix_eq_ok
  · exact .of_sqrt sqrt_sui generateGene_eq_ok
  · exact .of_sqrt sqrt_sei Sei.KittyBreeding.genesMix_eq_ok
  · intro h c G hG hr hmint
    have hle := genesLe_of_run hr hmint
    exact ⟨hle, hle.breed_ne hG⟩

/-- A kitty provides a gene, and its owner breeds it with that gene. -/
theorem genes_bounded_breed : ∃ (h : History Bool ℕ) (c : Config (Store Bool ℕ) Empty),
    machine.Run Anything ⟨genesis Bool ℕ, 0⟩ h c ∧
    calls h = [.breed true 3 2 4 5, .provideGene true 2 true 3, .mint true 9 1 2] ∧
    GenesLe 9 c.state := by
  obtain ⟨⟨h, c⟩, hx, hcalls⟩ :
      ∃ r ∈ machine.exec Anything ⟨genesis Bool ℕ, 0⟩
        [.call (.mint true 9 1 2), .call (.provideGene true 2 true 3),
          .call (.breed true 3 2 4 5)],
        calls r.1 = [.breed true 3 2 4 5, .provideGene true 2 true 3, .mint true 9 1 2] := by
    decide
  have hr := Machine.exec_run hx
  refine ⟨h, c, hr, hcalls, (genes_bounded.2.2.2 h c 9 (by decide) hr ?_).1⟩
  intro sender geneId newGene newKitty hmem
  rw [hcalls] at hmem
  simp only [List.mem_cons, List.not_mem_nil, or_false, reduceCtorEq, false_or] at hmem
  cases hmem
  exact Nat.le_refl 9

end Sui

end KittyArithmetic

end RelayContracts
