import RelayContracts.Crystality.Erc20

/-!
# Forged relays in the Crystality ERC20 contract

The functions that the relays are for are public, and nothing in them tells a relay from a call:
`_deposit`, called directly, credits a balance out of nothing. This module follows what the balances
hold together with the credits in flight, and says of every step whether it changes that as a `mint`
or a `burn` may.

Besides forged credits there is one more way to change it, which needs no forgery: a credit that
finds no room is lost. `changes_authorised_iff` says that there is no third one.
-/

namespace RelayContracts

namespace Crystality

namespace Erc20

open RelayMachine

variable {A : Type} [DecidableEq A] {h : History A} {c c' : Config (State A) (Relay A)}
  {e : Event (Call A) (Relay A) (Option Bool) Fault}

/-- What a direct call of `_deposit` has brought in. -/
def forged : Event (Call A) (Relay A) (Option Bool) Fault → ℕ
  | .call (.deposit _ amount) (.ok _) => amount
  | _ => 0

/-- What the balances hold and the credits in flight. -/
def held [Fintype A] (c : Config (State A) (Relay A)) : ℕ :=
  ∑ a, c.state.balance a + c.carried Relay.toBalance

/-- What a call does to the holdings. -/
theorem Called.held [Fintype A] {s : State A} {k : Call A}
    {eff : Effect (State A) (Relay A) (Option Bool)} (hc : Called s k eff) :
    ∑ a, eff.state.balance a + (eff.relays.map Relay.toBalance).sum +
        burned (.call k (.ok eff.value)) =
      ∑ a, s.balance a + (minted (.call k (.ok eff.value)) + forged (.call k (.ok eff.value))) := by
  by_cases hop : k.isOperation
  · have hforged : forged (.call k (.ok eff.value)) = 0 := by
      cases k with
      | deposit => cases hop
      | _ => rfl
    rw [hforged, Nat.add_zero]
    exact (hc.books hop).1
  · cases hc with
    | deposit hd =>
      obtain ⟨hbalance, -, hrelays⟩ := hd.books
      simp [hbalance, hrelays, burned, minted, forged, Relay.toBalance]
    | addTotalSupply hd =>
      obtain ⟨hbalance, -, hrelays⟩ := hd.books
      simp [hbalance, hrelays, burned, minted, forged, Relay.toBalance]
    | subTotalSupply hd =>
      obtain ⟨hbalance, -, hrelays⟩ := hd.books
      simp [hbalance, hrelays, burned, minted, forged, Relay.toBalance]
    | _ => exact absurd rfl hop

/-- **What a step does to the holdings.** -/
theorem held_of_step [Fintype A] (hs : machine.Step c e c') :
    held c' + (burned e + reverted Relay.toBalance e) = held c + (minted e + forged e) := by
  have hr : machine.Run Anything c [e] c' := Machine.Run.nil.step hs trivial
  have hbal := hr.conserved (fun s => ∑ a, s.balance a) Relay.toBalance
    (fun e => burned e + reverted Relay.toBalance e) (fun e => minted e + forged e) ?_ ?_ ?_ ?_
  · simpa [held] using hbal
  · intro h c k eff _ hk
    exact (called_of_ok hk).held
  · intro s k f _
    simp [minted, burned, forged]
  · intro s m eff hk
    obtain ⟨hbalance, -, hrelays⟩ := (delivered_of_ok hk).books
    simp [hbalance, hrelays, minted, burned, forged]
  · intro s m f _
    simp [minted, burned, forged]

/-! ### Authorised changes -/

/-- A step changes the holdings by what it mints or burns and by nothing else, and it mints and
burns only in its caller's account. -/
structure Authorised [Fintype A] (c : Config (State A) (Relay A))
    (e : Event (Call A) (Relay A) (Option Bool) Fault) (c' : Config (State A) (Relay A)) :
    Prop where
  held_eq : held c' + burned e = held c + minted e
  mint_own : ∀ p a amount v, e = .call (.mint p a amount) (.ok v) → p = a
  burn_own : ∀ p a amount v, e = .call (.burn p a amount) (.ok v) → p = a

/-- A direct call of `_deposit` comes to nothing, and a relayed one finds room. -/
def Unforged (_ : History A) (c : Config (State A) (Relay A)) :
    Event (Call A) (Relay A) (Option Bool) Fault → Prop
  | .call (.deposit scope amount) _ => amount = 0 ∨ 2 ^ 256 ≤ c.state.balance scope + amount
  | .deliver (.deposit scope amount) _ => c.state.balance scope + amount < 2 ^ 256
  | _ => True

instance (h : History A) (c : Config (State A) (Relay A))
    (e : Event (Call A) (Relay A) (Option Bool) Fault) : Decidable (Unforged h c e) :=
  match e with
  | .call (.deposit scope amount) _ =>
    inferInstanceAs (Decidable (amount = 0 ∨ 2 ^ 256 ≤ c.state.balance scope + amount))
  | .deliver (.deposit scope amount) _ =>
    inferInstanceAs (Decidable (c.state.balance scope + amount < 2 ^ 256))
  | .call (.mint _ _ _) _ | .call (.transfer _ _ _ _) _ | .call (.approve _ _ _ _) _
  | .call (.transferFrom _ _ _ _ _) _ | .call (.burn _ _ _) _ | .call (.addTotalSupply _) _
  | .call (.subTotalSupply _) _ | .deliver (.addTotalSupply _) _
  | .deliver (.subTotalSupply _) _ => isTrue trivial

/-- The holdings change as they may if nothing is forged and nothing lost. -/
theorem held_eq_iff [Fintype A] (hs : machine.Step c e c') :
    held c' + burned e = held c + minted e ↔ forged e = 0 ∧ reverted Relay.toBalance e = 0 := by
  have hheld := held_of_step hs
  have hone : forged e = 0 ∨ reverted Relay.toBalance e = 0 := by
    cases e with
    | call k r => exact .inr rfl
    | deliver m r => exact .inl rfl
  omega

/-- A step forges nothing and loses nothing under the condition `Unforged`, and only then. -/
theorem unforged_iff (hlt : ∀ a, c.state.balance a < 2 ^ 256) (hs : machine.Step c e c') :
    forged e = 0 ∧ reverted Relay.toBalance e = 0 ↔ Unforged h c e := by
  cases hs with
  | @callOk k eff hk =>
    cases k with
    | deposit scope amount =>
      have hfit : c.state.balance scope + amount < 2 ^ 256 := (delivered_of_ok
        (show machine.relay (.deposit scope amount) c.state = .ok eff from hk)).inRange
      show amount = 0 ∧ 0 = 0 ↔ amount = 0 ∨ 2 ^ 256 ≤ c.state.balance scope + amount
      omega
    | _ => exact iff_of_true ⟨rfl, rfl⟩ trivial
  | @callError k f hk =>
    cases k with
    | deposit scope amount =>
      refine iff_of_true ⟨rfl, rfl⟩ (.inr (Nat.le_of_not_lt fun hfit => ?_))
      exact relay_ne_error (m := .deposit scope amount) hfit hk
    | _ => exact iff_of_true ⟨rfl, rfl⟩ trivial
  | @deliverOk m rest eff hm hk =>
    cases m with
    | deposit scope amount => exact iff_of_true ⟨rfl, rfl⟩ (delivered_of_ok hk).inRange
    | _ => exact iff_of_true ⟨rfl, rfl⟩ trivial
  | @deliverError m rest f hm hk =>
    cases m with
    | deposit scope amount =>
      -- a credit of nothing finds room
      have hroom := hlt scope
      have hnot : ¬ c.state.balance scope + amount < 2 ^ 256 := fun hfit =>
        relay_ne_error (m := .deposit scope amount) hfit hk
      show 0 = 0 ∧ amount = 0 ↔ c.state.balance scope + amount < 2 ^ 256
      omega
    | _ => exact iff_of_true ⟨rfl, rfl⟩ trivial

/-- **One step.** It is authorised exactly if it forges no credit and loses none. -/
theorem authorised_iff [Fintype A] (hlt : ∀ a, c.state.balance a < 2 ^ 256)
    (hs : machine.Step c e c') : Authorised c e c' ↔ Unforged h c e := by
  rw [← unforged_iff hlt hs, ← held_eq_iff hs]
  refine ⟨Authorised.held_eq, fun hheld => ⟨hheld, ?_, ?_⟩⟩
  · rintro p a amount v rfl
    cases hs with
    | callOk hk => exact (of_require_eq_ok hk).1
  · rintro p a amount v rfl
    cases hs with
    | callOk hk => exact (of_require_eq_ok hk).1

/-- **When the holdings change as they may.** Take any run in which anybody calls any function and
relays are delivered in any order. What the balances hold and the credits in flight changes in it
only in a `mint` or a `burn`, by its amount and in the caller's own account, exactly if no direct
call of `_deposit` credits anything and no relayed one is executed when the balance has no room. -/
theorem changes_authorised_iff [Fintype A] (hr : machine.Run Anything ⟨empty, 0⟩ h c) :
    (∀ h₁ c₁ e c₂, e :: h₁ <:+ h → machine.Run Anything ⟨empty, 0⟩ h₁ c₁ →
      machine.Step c₁ e c₂ → Authorised c₁ e c₂) ↔ machine.Run Unforged ⟨empty, 0⟩ h c := by
  constructor
  · intro hall
    refine hr.within.mono_of_run fun {h₁ c₁ e c₂} hr₁ hs hg => ?_
    have hr₁ := hr₁.mono fun _ _ _ _ => trivial
    exact (authorised_iff (balance_lt_of_run hr₁) hs).mp (hall h₁ c₁ e c₂ hg.2 hr₁ hs)
  · intro hunforged h₁ c₁ e c₂ hsuffix hr₁ hs
    obtain ⟨c', hr'⟩ := hunforged.of_suffix hsuffix
    cases hr' with
    | step hr₁' hs' hg =>
      obtain rfl := hr₁.unique hr₁'
      exact (authorised_iff (balance_lt_of_run hr₁) hs).mpr hg

/-- Address 0 mints 5 and sends 2 to address 1; a direct `_deposit` of nothing does no harm. -/
theorem changes_authorised_honest : ∃ h c,
    machine.Run Anything ⟨empty, 0⟩ h c ∧
      calls h = [.deposit (0 : Fin 2) 0, .transfer 0 0 1 2, .mint 0 0 5] ∧ held c = 5 ∧
      ∀ h₁ c₁ e c₂, e :: h₁ <:+ h → machine.Run Anything ⟨empty, 0⟩ h₁ c₁ →
        machine.Step c₁ e c₂ → Authorised c₁ e c₂ := by
  obtain ⟨⟨h, c⟩, hx, hcalls, hheld⟩ :
      ∃ r ∈ (machine (A := Fin 2)).exec Unforged ⟨empty, 0⟩
        [.call (.mint 0 0 5), .call (.transfer 0 0 1 2), .call (.deposit 0 0),
          .deliver (.deposit 1 2)],
        calls r.1 = [.deposit (0 : Fin 2) 0, .transfer 0 0 1 2, .mint 0 0 5] ∧
          held r.2 = 5 := by decide
  have hunforged := Machine.exec_run hx
  have hr : machine.Run Anything ⟨empty, 0⟩ h c := hunforged.mono fun _ _ _ _ => trivial
  exact ⟨h, c, hr, hcalls, hheld, (changes_authorised_iff hr).mpr hunforged⟩

/-- Somebody calls `_deposit` for address 1, which then has 7 out of nothing. -/
theorem deposit_forged : ∃ c c' r,
    machine.Run Anything ⟨empty, 0⟩ [] c ∧
      machine.Step c (.call (.deposit (1 : Fin 2) 7) r) c' ∧ held c = 0 ∧ held c' = 7 ∧
      ¬ Authorised c (.call (.deposit (1 : Fin 2) 7) r) c' := by
  obtain ⟨⟨e, c'⟩, ha, hheld⟩ :
      ∃ x ∈ (machine (A := Fin 2)).act ⟨empty, 0⟩ (.call (.deposit 1 7)), held x.2 = 7 := by decide
  obtain ⟨r, hst⟩ := Machine.exists_step_of_act_call _ ha
  refine ⟨_, c', r, .nil, hst, rfl, hheld, fun hauth => ?_⟩
  have hzero : held (⟨empty, 0⟩ : Config (State (Fin 2)) (Relay (Fin 2))) = 0 := rfl
  have hheld_eq := hauth.held_eq
  rw [hheld, hzero] at hheld_eq
  cases hheld_eq

end Erc20

end Crystality

end RelayContracts
