import RelayContracts.Crystality.AirDrop

/-!
# Who can spend a balance in the AirDrop contracts

`transfer_n` takes the paying address as its argument `_scope` and does not compare it with
`msg.sender`, neither in the Sei contract nor in the Crystality contract. So anybody can send a
batch from anybody's balance. Since no function reads `msg.sender`, it is no part of a call, and the
caller is a variable `p` of the statements here.

`only_owner_spends_iff` says of every call in every reachable state whether it takes from somebody
other than its caller. The two contracts differ in this: what the scope pays itself comes back
within the call on Sei and by a relay here, and on Sei a receiver without room makes the call fail.
-/

namespace RelayContracts

namespace Crystality

namespace AirDrop

open RelayMachine Solidity

variable {A : Type} [DecidableEq A]

/-- The state a deployment starts from. -/
def empty : State A := ⟨fun _ => 0⟩

variable {h : History A} {c c' : Config (State A) (Relay A)} {k : Call A}
  {r : Except Fault (Option Bool)} {s : State A}

theorem inRange_of_run (hr : machine.Run Anything ⟨empty, 0⟩ h c) : InUint256 c.state.balance := by
  refine hr.invariant (I := fun _ c => InUint256 c.state.balance) (fun _ => Nat.two_pow_pos 256)
    ?_ ?_ ?_ ?_
  · intro h c k eff _ ih _ hk
    cases called_of_ok hk with
    | @transferN t hle =>
      have hscope := ih t.scope
      exact ih.update t.scope (by omega)
    | transferNFalse => exact ih
    | deposit hfit => exact ih.update _ hfit
  · intro h c k f _ ih _ _
    exact ih
  · rintro h s ⟨scope, amount⟩ rest eff _ ih _ hk
    obtain ⟨hfit, rfl⟩ := eq_of_deposit_ok hk
    exact InUint256.update ih scope hfit
  · intro h s m rest f _ ih _ _
    exact ih

/-- A call takes from somebody other than `p`: it is a batch over more than nothing that is covered
by an address that is not `p`. -/
def Call.TakesFromOther (p : A) (s : State A) : Call A → Prop
  | .transferN t =>
    t.scope ≠ p ∧ 0 < totalAmount t.recipients ∧ totalAmount t.recipients ≤ s.balance t.scope
  | .deposit _ _ => False

/-- **Who is taken from.** A call of `p` lowers no balance but that of `p`, or it is a batch that
takes from somebody else. -/
theorem no_decrease_iff (hs : InUint256 c.state.balance) (p : A)
    (hst : machine.Step c (.call k r) c') :
    (∀ a, a ≠ p → c.state.balance a ≤ c'.state.balance a) ↔ ¬ k.TakesFromOther p c.state := by
  cases hst with
  | callOk hk =>
    cases called_of_ok hk with
    | @transferN t hle =>
      dsimp only
      constructor
      · rintro hkeep ⟨hp, hpos, -⟩
        have hscope := hkeep t.scope hp
        rw [Function.update_self] at hscope
        omega
      · intro hnot a ha
        by_cases hat : a = t.scope
        · have hzero : totalAmount t.recipients = 0 := by
            by_contra hpos
            exact hnot ⟨hat ▸ ha, Nat.pos_of_ne_zero hpos, hle⟩
          rw [hat, Function.update_self, hzero]
          exact Nat.le_refl _
        · rw [Function.update_of_ne hat]
    | @transferNFalse t hlt =>
      refine iff_of_true (fun _ _ => Nat.le_refl _) ?_
      rintro ⟨-, -, hle⟩
      omega
    | @deposit scope amount hfit =>
      refine iff_of_true (fun a _ => ?_) id
      have hcredit := update_credit c.state.balance scope amount a
      dsimp only
      omega
  | callError hk =>
    refine iff_of_true (fun _ _ => Nat.le_refl _) fun htakes => ?_
    cases k with
    | transferN t =>
      obtain ⟨eff, heff, -⟩ := transferN_of_le (hs t.scope) htakes.2.2
      cases heff.symm.trans hk
    | deposit scope amount => exact htakes

/-- **Only the owner spends,** in the Sei contract and in the immediate effect of a call here,
except in the batches of which `TakesFromOther` holds. -/
theorem only_owner_spends_iff (p : A) :
    (∀ (h : Sei.AirDrop.History A) (c c' : Config (Sei.AirDrop.State A) Empty)
        (k : Sei.AirDrop.Call A) (r : Except Fault Sei.AirDrop.Value),
      Sei.AirDrop.machine.Run Anything ⟨Sei.AirDrop.empty, 0⟩ h c →
      Sei.AirDrop.machine.Step c (.call k r) c' →
      ((∀ a, a ≠ p → c.state.balance a ≤ c'.state.balance a) ↔
        ¬ k.TakesFromOther p c.state)) ∧
    ∀ (h : History A) (c c' : Config (State A) (Relay A)) (k : Call A)
        (r : Except Fault (Option Bool)),
      machine.Run Anything ⟨empty, 0⟩ h c → machine.Step c (.call k r) c' →
      ((∀ a, a ≠ p → c.state.balance a ≤ c'.state.balance a) ↔
        ¬ k.TakesFromOther p c.state) := by
  constructor
  · intro h c c' k r hr hst
    exact Sei.AirDrop.no_decrease_iff (Sei.AirDrop.inRange_of_run hr) p hst
  · intro h c c' k r hr hst
    exact no_decrease_iff (inRange_of_run hr) p hst

/-- An address pays another from its own balance, on Sei and here. -/
theorem only_owner_spends_own :
    (∃ (h : Sei.AirDrop.History (Fin 2)) (c c' : Config (Sei.AirDrop.State (Fin 2)) Empty)
        (r : Except Fault Sei.AirDrop.Value),
      Sei.AirDrop.machine.Run Anything ⟨Sei.AirDrop.empty, 0⟩ h c ∧
      Sei.AirDrop.machine.Step c (.call (.transferN ⟨0, [⟨1, 3⟩]⟩) r) c' ∧
      c'.state.balance 0 = 2 ∧ ∀ a, a ≠ 0 → c.state.balance a ≤ c'.state.balance a) ∧
    ∃ (h : History (Fin 2)) (c c' : Config (State (Fin 2)) (Relay (Fin 2)))
        (r : Except Fault (Option Bool)),
      machine.Run Anything ⟨empty, 0⟩ h c ∧
      machine.Step c (.call (.transferN ⟨0, [⟨1, 3⟩]⟩) r) c' ∧
      c'.state.balance 0 = 2 ∧ ∀ a, a ≠ 0 → c.state.balance a ≤ c'.state.balance a := by
  constructor
  · obtain ⟨⟨h, c⟩, hx, ⟨e, c'⟩, ha, hbalance⟩ :
        ∃ x ∈ Sei.AirDrop.machine.exec Anything ⟨(Sei.AirDrop.empty : Sei.AirDrop.State (Fin 2)), 0⟩
          [.call (.deposit 0 5)],
          ∃ y ∈ Sei.AirDrop.machine.act x.2 (.call (.transferN ⟨0, [⟨1, 3⟩]⟩)),
            y.2.state.balance 0 = 2 := by decide
    have hr := Machine.exec_run hx
    obtain ⟨r, hst⟩ := Machine.exists_step_of_act_call _ ha
    exact ⟨h, c, c', r, hr, hst, hbalance, ((only_owner_spends_iff 0).1 h c c' _ r hr hst).mpr
      fun htakes => htakes.1 rfl⟩
  · obtain ⟨⟨h, c⟩, hx, ⟨e, c'⟩, ha, hbalance⟩ :
        ∃ x ∈ machine.exec Anything ⟨(empty : State (Fin 2)), 0⟩ [.call (.deposit 0 5)],
          ∃ y ∈ machine.act x.2 (.call (.transferN ⟨0, [⟨1, 3⟩]⟩)),
            y.2.state.balance 0 = 2 := by decide
    have hr := Machine.exec_run hx
    obtain ⟨r, hst⟩ := Machine.exists_step_of_act_call _ ha
    exact ⟨h, c, c', r, hr, hst, hbalance, ((only_owner_spends_iff 0).2 h c c' _ r hr hst).mpr
      fun htakes => htakes.1 rfl⟩

/-- Address `1` calls, and is paid from the balance of address `0`, on Sei and here. -/
theorem other_spends :
    (∃ (h : Sei.AirDrop.History (Fin 2)) (c c' : Config (Sei.AirDrop.State (Fin 2)) Empty)
        (r : Except Fault Sei.AirDrop.Value),
      Sei.AirDrop.machine.Run Anything ⟨Sei.AirDrop.empty, 0⟩ h c ∧
      Sei.AirDrop.machine.Step c (.call (.transferN ⟨0, [⟨1, 3⟩]⟩) r) c' ∧
      ¬ ∀ a, a ≠ 1 → c.state.balance a ≤ c'.state.balance a) ∧
    ∃ (h : History (Fin 2)) (c c' : Config (State (Fin 2)) (Relay (Fin 2)))
        (r : Except Fault (Option Bool)),
      machine.Run Anything ⟨empty, 0⟩ h c ∧
      machine.Step c (.call (.transferN ⟨0, [⟨1, 3⟩]⟩) r) c' ∧
      ¬ ∀ a, a ≠ 1 → c.state.balance a ≤ c'.state.balance a := by
  constructor
  · obtain ⟨⟨h, c⟩, hx, ⟨e, c'⟩, ha, hless⟩ :
        ∃ x ∈ Sei.AirDrop.machine.exec Anything ⟨(Sei.AirDrop.empty : Sei.AirDrop.State (Fin 2)), 0⟩
          [.call (.deposit 0 5)],
          ∃ y ∈ Sei.AirDrop.machine.act x.2 (.call (.transferN ⟨0, [⟨1, 3⟩]⟩)),
            ¬ ∀ a, a ≠ 1 → x.2.state.balance a ≤ y.2.state.balance a := by decide
    obtain ⟨r, hst⟩ := Machine.exists_step_of_act_call _ ha
    exact ⟨h, c, c', r, Machine.exec_run hx, hst, hless⟩
  · obtain ⟨⟨h, c⟩, hx, ⟨e, c'⟩, ha, hless⟩ :
        ∃ x ∈ machine.exec Anything ⟨(empty : State (Fin 2)), 0⟩ [.call (.deposit 0 5)],
          ∃ y ∈ machine.act x.2 (.call (.transferN ⟨0, [⟨1, 3⟩]⟩)),
            ¬ ∀ a, a ≠ 1 → x.2.state.balance a ≤ y.2.state.balance a := by decide
    obtain ⟨r, hst⟩ := Machine.exists_step_of_act_call _ ha
    exact ⟨h, c, c', r, Machine.exec_run hx, hst, hless⟩

end AirDrop

end Crystality

end RelayContracts
