import RelayContracts.Preda.MillionPixel

/-!
# The Crystality million pixel contract

The contract of `Million_Pixel.sol` among the Crystality contracts. `occupy` and the handler of its
relay are those of the PREDA contract. There is also `warmup`, whose handler writes to the land
without asking who has it and leaves it free.

Both handlers are public, so each can be executed as a relay or be called by anybody. As the handler
of `occupy` leaves a taken land alone, an owner is safe but for a warm-up: `taken_kept_iff` says
that the owners of a run are never changed exactly if every warm-up found its land free.
-/

namespace RelayContracts

namespace Crystality

namespace MillionPixel

open RelayMachine
open Preda.MillionPixel (Land State vacant pixelIndex pixelIndex_eq occupyLand land_occupyLand)

/-- The external and public functions. -/
inductive Call (A : Type) where
  /-- `warmup(_scope, x, y)`. -/
  | warmup (msgSender scope : A) (x y : UInt16)
  /-- `warmup_occupy(_scope, sender)`, called directly. -/
  | warmupOccupy (scope : ℕ) (sender : A)
  /-- `occupy(_scope, x, y)`. -/
  | occupy (msgSender scope : A) (x y : UInt16)
  /-- `_relay_lambda_1(_scope, sender)`, called directly. -/
  | relayLambda1 (scope : ℕ) (sender : A)
  deriving DecidableEq, Repr

/-- The relays. -/
inductive Relay (A : Type) where
  /-- `address(666).call(warmup_occupy(_scope, sender))`. -/
  | warmupOccupy (scope : ℕ) (sender : A)
  /-- `address(666).call(_relay_lambda_1(_scope, sender))`. -/
  | relayLambda1 (scope : ℕ) (sender : A)
  deriving DecidableEq, Repr

variable {A : Type}

/-! ### The functions -/

/-- `warmup_occupy(_scope, sender)`. -/
def warmupOccupy (scope : ℕ) (sender : A) (s : State A) :
    Except Fault (Effect (State A) (Relay A) Unit) :=
  .ok ⟨⟨Function.update s.land scope ⟨false, sender⟩⟩, (), []⟩

/-- `_relay_lambda_1(_scope, sender)`. -/
def relayLambda1 (scope : ℕ) (sender : A) (s : State A) :
    Except Fault (Effect (State A) (Relay A) Unit) :=
  .ok ⟨occupyLand scope sender s, (), []⟩

variable [DecidableEq A]

/-- `warmup(_scope, x, y)`. -/
def warmup (msgSender scope : A) (x y : UInt16) (s : State A) :
    Except Fault (Effect (State A) (Relay A) Unit) :=
  if msgSender = scope then do
    let index ← pixelIndex .trap 65536 x y
    .ok ⟨s, (), [.warmupOccupy index msgSender]⟩
  else .error .assertion

/-- `occupy(_scope, x, y)`. -/
def occupy (msgSender scope : A) (x y : UInt16) (s : State A) :
    Except Fault (Effect (State A) (Relay A) Unit) :=
  if msgSender = scope then do
    let index ← pixelIndex .trap 65536 x y
    .ok ⟨s, (), [.relayLambda1 index scope]⟩
  else .error .assertion

/-- The contract as a relay machine. -/
def machine : Machine (State A) (Call A) (Relay A) Unit Fault where
  call
    | .warmup msgSender scope x y => warmup msgSender scope x y
    | .warmupOccupy scope sender => warmupOccupy scope sender
    | .occupy msgSender scope x y => occupy msgSender scope x y
    | .relayLambda1 scope sender => relayLambda1 scope sender
  relay
    | .warmupOccupy scope sender => warmupOccupy scope sender
    | .relayLambda1 scope sender => relayLambda1 scope sender

/-! ### Warm-ups -/

/-- The events of a run of the contract, latest first. -/
abbrev History (A : Type) := List (Event (Call A) (Relay A) Unit Fault)

/-- The land that an event warms up. -/
def warmedUp : Event (Call A) (Relay A) Unit Fault → Option ℕ
  | .call (.warmupOccupy scope _) _ => some scope
  | .deliver (.warmupOccupy scope _) _ => some scope
  | _ => none

/-- A land is warmed up only while it is free. -/
def WarmsUpFree (_ : History A) (c : Config (State A) (Relay A))
    (e : Event (Call A) (Relay A) Unit Fault) : Prop :=
  ∀ i ∈ warmedUp e, (c.state.land i).flag = false

instance (h : History A) (c : Config (State A) (Relay A))
    (e : Event (Call A) (Relay A) Unit Fault) : Decidable (WarmsUpFree h c e) :=
  inferInstanceAs (Decidable (∀ i ∈ warmedUp e, (c.state.land i).flag = false))

variable {h : History A} {c c' : Config (State A) (Relay A)}
  {e : Event (Call A) (Relay A) Unit Fault} {s : State A} {eff : Effect (State A) (Relay A) Unit}

theorem warmup_state {p a : A} {x y : UInt16} (hk : warmup p a x y s = .ok eff) :
    eff.state = s := by
  obtain ⟨-, hk⟩ := of_require_eq_ok hk
  rw [pixelIndex_eq .trap (Nat.le_refl 65536), ok_bind] at hk
  cases hk
  rfl

theorem occupy_state {p a : A} {x y : UInt16} (hk : occupy p a x y s = .ok eff) :
    eff.state = s := by
  obtain ⟨-, hk⟩ := of_require_eq_ok hk
  rw [pixelIndex_eq .trap (Nat.le_refl 65536), ok_bind] at hk
  cases hk
  rfl

/-- **What a step does to the lands.** It warms one up, or it changes nothing, or it occupies one if
it is free. -/
theorem land_of_step (hs : machine.Step c e c') :
    (∃ i a, warmedUp e = some i ∧ c'.state.land = Function.update c.state.land i ⟨false, a⟩) ∨
      warmedUp e = none ∧
        (c'.state = c.state ∨ ∃ i a, c'.state = occupyLand i a c.state) := by
  cases hs with
  | @callOk k eff hk =>
    cases k with
    | warmup p a x y => exact .inr ⟨rfl, .inl (warmup_state hk)⟩
    | warmupOccupy i a =>
      cases hk
      exact .inl ⟨i, a, rfl, rfl⟩
    | occupy p a x y => exact .inr ⟨rfl, .inl (occupy_state hk)⟩
    | relayLambda1 i a =>
      cases hk
      exact .inr ⟨rfl, .inr ⟨i, a, rfl⟩⟩
  | @callError k f hk =>
    cases k with
    | warmup p a x y => exact .inr ⟨rfl, .inl rfl⟩
    | warmupOccupy i a => cases hk
    | occupy p a x y => exact .inr ⟨rfl, .inl rfl⟩
    | relayLambda1 i a => cases hk
  | @deliverOk m rest eff hm hk =>
    cases m with
    | warmupOccupy i a =>
      cases hk
      exact .inl ⟨i, a, rfl, rfl⟩
    | relayLambda1 i a =>
      cases hk
      exact .inr ⟨rfl, .inr ⟨i, a, rfl⟩⟩
  | @deliverError m rest f hm hk =>
    cases m with
    | warmupOccupy i a => cases hk
    | relayLambda1 i a => cases hk

/-- A step that warms up no taken land leaves the taken lands as they are. -/
theorem land_eq_of_step (hs : machine.Step c e c') (hfree : WarmsUpFree h c e) {i : ℕ}
    (hflag : (c.state.land i).flag = true) : c'.state.land i = c.state.land i := by
  rcases land_of_step hs with ⟨j, a, hj, hland⟩ | ⟨-, hsame | ⟨j, a, hoccupy⟩⟩
  · have hij : i ≠ j := by
      rintro rfl
      cases hflag.symm.trans (hfree i hj)
    rw [hland, Function.update_of_ne hij]
  · rw [hsame]
  · rw [hoccupy, land_occupyLand hflag]

/-- **Taken lands are kept** along a run if and only if it warms up no land that is taken. -/
theorem taken_kept_iff [Zero A] (hr : machine.Run Anything ⟨vacant, 0⟩ h c) :
    (∀ h₁ h₂ c₁ c₂, h₁ <:+ h₂ → h₂ <:+ h → machine.Run Anything ⟨vacant, 0⟩ h₁ c₁ →
      machine.Run Anything ⟨vacant, 0⟩ h₂ c₂ → ∀ i, (c₁.state.land i).flag = true →
        (c₂.state.land i).flag = true ∧ (c₂.state.land i).owner = (c₁.state.land i).owner) ↔
      machine.Run WarmsUpFree ⟨vacant, 0⟩ h c := by
  constructor
  · intro hkept
    refine hr.within.mono_of_run fun {h₁ c₁ e c₂} hr₁ hs hg i hi => Bool.eq_false_iff.mpr ?_
    intro hflag
    have hr₁ := hr₁.mono fun _ _ _ _ => trivial
    obtain ⟨hflag', -⟩ := hkept h₁ (e :: h₁) c₁ c₂ (List.suffix_cons e h₁) hg.2 hr₁
      (hr₁.step hs trivial) i hflag
    rcases land_of_step hs with ⟨j, a, hj, hland⟩ | ⟨hnone, -⟩
    · cases hj.symm.trans hi
      rw [hland, Function.update_self] at hflag'
      cases hflag'
    · cases hnone.symm.trans hi
  · intro hfree h₁ h₂ c₁ c₂ hs₁ hs₂ hr₁ hr₂ i hflag
    obtain ⟨c₂', hfree₂⟩ := hfree.of_suffix hs₂
    obtain rfl := hr₂.unique hfree₂
    have hland : c₂.state.land i = c₁.state.land i := by
      refine hfree₂.rel_of_suffix (R := fun c => c.state.land i = c₁.state.land i) hr₁ hs₁ rfl ?_
      intro h c e c' hc hs hg
      rw [land_eq_of_step hs hg (hc ▸ hflag), hc]
    rw [hland]
    exact ⟨hflag, rfl⟩

/-- A land is warmed up, occupied, and asked for again: it keeps its owner. -/
theorem taken_kept_after_warmup :
    ∃ (h : History (Fin 2)) (c : Config (State (Fin 2)) (Relay (Fin 2))),
      machine.Run Anything ⟨vacant, 0⟩ h c ∧
      calls h = [.occupy 1 1 0 7, .occupy 0 0 0 7, .warmup 1 1 0 7] ∧
      c.state.land 7 = ⟨true, 0⟩ ∧
      ∀ h₁ h₂ c₁ c₂, h₁ <:+ h₂ → h₂ <:+ h → machine.Run Anything ⟨vacant, 0⟩ h₁ c₁ →
        machine.Run Anything ⟨vacant, 0⟩ h₂ c₂ → ∀ i, (c₁.state.land i).flag = true →
          (c₂.state.land i).flag = true ∧
            (c₂.state.land i).owner = (c₁.state.land i).owner := by
  obtain ⟨⟨h, c⟩, hx, hcalls, hland⟩ :
      ∃ r ∈ machine.exec WarmsUpFree ⟨(vacant : State (Fin 2)), 0⟩
        [.call (.warmup 1 1 0 7), .deliver (.warmupOccupy 7 1), .call (.occupy 0 0 0 7),
          .deliver (.relayLambda1 7 0), .call (.occupy 1 1 0 7), .deliver (.relayLambda1 7 1)],
        calls r.1 = [.occupy 1 1 0 7, .occupy 0 0 0 7, .warmup 1 1 0 7] ∧
        r.2.state.land 7 = ⟨true, 0⟩ := by decide
  have hfree := Machine.exec_run hx
  have hr : machine.Run Anything ⟨vacant, 0⟩ h c := hfree.mono fun _ _ _ _ => trivial
  exact ⟨h, c, hr, hcalls, hland, (taken_kept_iff hr).mpr hfree⟩

/-- An address occupies a pixel, and another takes it over by a warm-up. -/
theorem taken_lost_to_warmup :
    ∃ (h₁ h₂ : History (Fin 2)) (c₁ c₂ : Config (State (Fin 2)) (Relay (Fin 2))),
      h₁ <:+ h₂ ∧ machine.Run Anything ⟨vacant, 0⟩ h₁ c₁ ∧
      machine.Run Anything ⟨vacant, 0⟩ h₂ c₂ ∧
      c₁.state.land 7 = ⟨true, 0⟩ ∧ c₂.state.land 7 = ⟨false, 1⟩ := by
  obtain ⟨⟨h₁, c₁⟩, hx₁, ⟨h₂, c₂⟩, hx₂, hland₁, hland₂⟩ :
      ∃ r₁ ∈ machine.exec Anything ⟨(vacant : State (Fin 2)), 0⟩
        [.call (.occupy 0 0 0 7), .deliver (.relayLambda1 7 0)],
        ∃ r₂ ∈ machine.execFrom Anything
          [.call (.warmup 1 1 0 7), .deliver (.warmupOccupy 7 1)] r₁.1 r₁.2,
          r₁.2.state.land 7 = ⟨true, 0⟩ ∧ r₂.2.state.land 7 = ⟨false, 1⟩ := by decide
  have hr₁ := Machine.exec_run hx₁
  exact ⟨h₁, h₂, c₁, c₂, Machine.suffix_of_execFrom hx₂, hr₁, hr₁.execFrom hx₂, hland₁, hland₂⟩

end MillionPixel

end Crystality

end RelayContracts
