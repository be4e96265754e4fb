import Mathlib.Data.ZMod.Defs
import RelayContracts.FirstWins
import RelayContracts.FixedWidth
import RelayContracts.RelayMachine

/-!
# The PREDA million pixel contract

The contract `MP` of `MP.prd`. A pixel is a pair of `uint16` coordinates, and its land is a variable
of the `uint32` scope that packs the two. `occupy` runs on the scope of the caller and relays to the
scope of the pixel, where the land is taken if nobody has it. Who gets a pixel is thus decided by
the order of the deliveries and not by that of the calls.

The packing is exact: it is injective and stays below `2 ^ 32` (`pixelIndex_eq`, `pack_inj`). So the
lands are a table in which the first entry wins, the entries being the relays that have been
delivered (`occupants_eq`).

## Main definitions

* `MillionPixel.machine` — the contract
* `MillionPixel.pixelIndex` — the packing, with the factor as a parameter
* `MillionPixel.delivered` — the relays delivered, as entries
-/

namespace RelayContracts

namespace Preda

namespace MillionPixel

open RelayMachine

/-- `struct Land`. -/
@[ext]
structure Land (A : Type) where
  /-- `bool flag`. -/
  flag : Bool
  /-- `address owner`. -/
  owner : A
  deriving DecidableEq, Repr

/-- The state of the contract. -/
structure State (A : Type) where
  /-- `@uint32 Land land`. -/
  land : ℕ → Land A

/-- The functions. `sender` is `__transaction.get_sender()`. -/
inductive Call (A : Type) where
  /-- `occupy(x, y)`. -/
  | occupy (sender : A) (x y : UInt16)
  deriving DecidableEq, Repr

/-- The relays. -/
inductive Relay (A : Type) where
  /-- `relay@index (auto sender)`. -/
  | occupy (index : ℕ) (sender : A)
  deriving DecidableEq, Repr

variable {A : Type}

/-- The state a deployment starts from, `0` being the zero address. -/
def vacant [Zero A] : State A := ⟨fun _ => ⟨false, 0⟩⟩

/-- `uint32(x) * side + uint32(y)`. -/
def pixelIndex (p : Overflow) (side : ℕ) (x y : UInt16) : Except Fault ℕ := do
  let row ← mulU p 32 x.toNat side
  addU p 32 row y.toNat

/-- The body of the relay. -/
def occupyLand (index : ℕ) (sender : A) (s : State A) : State A :=
  if (s.land index).flag = true then s
  else ⟨Function.update s.land index ⟨true, sender⟩⟩

/-- The contract as a relay machine. -/
def machine (p : Overflow) : Machine (State A) (Call A) (Relay A) Unit Fault where
  call
    | .occupy sender x y => fun s => do
      let index ← pixelIndex p 65536 x y
      .ok ⟨s, (), [.occupy index sender]⟩
  relay
    | .occupy index sender => fun s => .ok ⟨occupyLand index sender s, (), []⟩

/-! ### The packing -/

/-- The packing does not overflow, whatever the runtime would do then. -/
theorem pixelIndex_eq (p : Overflow) {side : ℕ} (hside : side ≤ 65536) (x y : UInt16) :
    pixelIndex p side x y = .ok (x.toNat * side + y.toNat) := by
  have hx := x.toNat_lt
  have hy := y.toNat_lt
  have hrow : x.toNat * side ≤ 65535 * 65536 := Nat.mul_le_mul (by omega) hside
  rw [pixelIndex, mulU_of_lt (by omega), ok_bind, addU_of_lt (by omega)]

/-- The packing is injective. -/
theorem pack_inj {x y x' y' : UInt16}
    (h : x.toNat * 65536 + y.toNat = x'.toNat * 65536 + y'.toNat) : x = x' ∧ y = y' := by
  have hy := y.toNat_lt
  have hy' := y'.toNat_lt
  exact ⟨UInt16.toNat_inj.mp (by omega), UInt16.toNat_inj.mp (by omega)⟩

/-! ### Lands as a table -/

/-- Who has a land. -/
def Land.occupant (l : Land A) : Option A := if l.flag then some l.owner else none

theorem Land.occupant_eq_some_iff {l : Land A} {a : A} :
    l.occupant = some a ↔ l.flag = true ∧ l.owner = a := by
  rw [occupant, Option.ite_none_right_eq_some, Option.some_inj]

theorem Land.occupant_eq_none_iff {l : Land A} : l.occupant = none ↔ l.flag = false := by
  rw [occupant, ite_eq_right_iff, Bool.eq_false_iff]
  simp

/-- The occupants of all lands. -/
def State.occupants (s : State A) : ℕ → Option A := Land.occupant ∘ s.land

/-- Taking a land is making an entry. -/
theorem occupants_occupyLand (index : ℕ) (sender : A) (s : State A) :
    (occupyLand index sender s).occupants = FirstWins.enter s.occupants index sender := by
  rw [occupyLand]
  by_cases hflag : (s.land index).flag = true
  · have hsome : s.occupants index = some (s.land index).owner :=
      Land.occupant_eq_some_iff.mpr ⟨hflag, rfl⟩
    rw [if_pos hflag, FirstWins.enter_of_some hsome]
  · have hnone : s.occupants index = none :=
      Land.occupant_eq_none_iff.mpr (Bool.eq_false_iff.mpr hflag)
    rw [if_neg hflag, FirstWins.enter_of_none hnone, State.occupants, State.occupants]
    exact Function.comp_update _ _ _ _

/-- A land that is taken is left as it is. -/
theorem land_occupyLand {i : ℕ} {s : State A} (hflag : (s.land i).flag = true) (index : ℕ)
    (sender : A) : (occupyLand index sender s).land i = s.land i := by
  rw [occupyLand]
  by_cases hindex : (s.land index).flag = true
  · rw [if_pos hindex]
  · have hi : i ≠ index := by
      rintro rfl
      exact hindex hflag
    rw [if_neg hindex]
    exact Function.update_of_ne hi _ _

/-! ### Along a run -/

/-- The events of a run of the contract, latest first. -/
abbrev History (A : Type) := List (Event (Call A) (Relay A) Unit Fault)

/-- The index a relay is for, and who sent it. -/
def Relay.entry : Relay A → ℕ × A
  | .occupy index sender => (index, sender)

/-- The index a call is about, and who made it. -/
def Call.entry : Call A → ℕ × A
  | .occupy sender x y => (x.toNat * 65536 + y.toNat, sender)

/-- The relays delivered, as entries, latest first. -/
def delivered : History A → List (ℕ × A)
  | [] => []
  | .call _ _ :: h => delivered h
  | .deliver m _ :: h => m.entry :: delivered h

variable {p : Overflow} {h : History A} {c c₀ : Config (State A) (Relay A)} {s : State A}
  {eff : Effect (State A) (Relay A) Unit}

/-- A call only emits its relay. -/
theorem call_eq (p : Overflow) (sender : A) (x y : UInt16) (s : State A) :
    (machine p).call (.occupy sender x y) s =
      .ok ⟨s, (), [.occupy (x.toNat * 65536 + y.toNat) sender]⟩ := by
  simp only [machine, pixelIndex_eq p (Nat.le_refl 65536), ok_bind]

theorem of_call_ok {k : Call A} (hk : (machine p).call k s = .ok eff) :
    eff.state = s ∧ eff.relays.map Relay.entry = [k.entry] := by
  obtain ⟨sender, x, y⟩ := k
  rw [call_eq] at hk
  cases hk
  exact ⟨rfl, rfl⟩

theorem call_ne_error {k : Call A} {f : Fault} : (machine p).call k s ≠ .error f := by
  obtain ⟨sender, x, y⟩ := k
  rw [call_eq]
  intro h
  cases h

theorem relay_eq (p : Overflow) (m : Relay A) (s : State A) :
    (machine p).relay m s = .ok ⟨occupyLand m.entry.1 m.entry.2 s, (), []⟩ := by
  cases m
  rfl

/-- **The first delivery wins.** -/
theorem occupants_eq [Zero A] (hr : (machine p).Run Anything ⟨vacant, 0⟩ h c) :
    c.state.occupants = FirstWins.table (delivered h) := by
  refine hr.invariant (I := fun h c => c.state.occupants = FirstWins.table (delivered h))
    rfl ?_ ?_ ?_ ?_
  · intro h c k eff _ ih _ hk
    rw [(of_call_ok hk).1, ih]
    rfl
  · intro h c k f _ _ _ hk
    exact absurd hk call_ne_error
  · intro h s m rest eff _ ih _ hk
    rw [relay_eq] at hk
    cases hk
    show (occupyLand m.entry.1 m.entry.2 s).occupants = _
    rw [occupants_occupyLand]
    exact congrArg (FirstWins.enter · m.entry.1 m.entry.2) ih
  · intro h s m rest f _ _ _ hk
    rw [relay_eq] at hk
    cases hk

theorem delivered_suffix {h h₁ : History A} (hs : h₁ <:+ h) : delivered h₁ <:+ delivered h := by
  obtain ⟨h₂, rfl⟩ := hs
  induction h₂ with
  | nil => exact List.suffix_rfl
  | cons e h₂ ih =>
    cases e with
    | call k r => exact ih
    | deliver m r => exact ih.trans (List.suffix_cons _ _)

/-- A land that is taken stays as it is. -/
theorem land_eq_of_suffix [Zero A] {h₁ : History A} {c₁ : Config (State A) (Relay A)}
    (hr : (machine p).Run Anything ⟨vacant, 0⟩ h c)
    (hr₁ : (machine p).Run Anything ⟨vacant, 0⟩ h₁ c₁) (hs : h₁ <:+ h) {i : ℕ}
    (hflag : (c₁.state.land i).flag = true) : c.state.land i = c₁.state.land i := by
  have h₁some : FirstWins.table (delivered h₁) i = some (c₁.state.land i).owner := by
    rw [← occupants_eq hr₁]
    exact Land.occupant_eq_some_iff.mpr ⟨hflag, rfl⟩
  have hsome := FirstWins.table_of_suffix (delivered_suffix hs) h₁some
  rw [← occupants_eq hr] at hsome
  obtain ⟨hflag', howner⟩ := Land.occupant_eq_some_iff.mp hsome
  exact Land.ext (hflag'.trans hflag.symm) howner

/-- No call has failed. -/
theorem ok_of_mem (hr : (machine p).Run Anything c₀ h c) {k : Call A} {r : Except Fault Unit}
    (hmem : .call k r ∈ h) : r = .ok () := by
  induction hr with
  | nil => cases hmem
  | step hr hs hg ih =>
    rcases List.mem_cons.mp hmem with rfl | hmem
    · cases hs with
      | callOk hk => rfl
      | callError hk => exact absurd hk call_ne_error
    · exact ih hmem

/-- What was called is what has been delivered and what is in flight. -/
theorem entries_eq (hr : (machine p).Run Anything ⟨s, 0⟩ h c) :
    c.inFlight.map Relay.entry + .ofList (delivered h) = .ofList ((calls h).map Call.entry) := by
  refine hr.invariant (I := fun h c => c.inFlight.map Relay.entry + .ofList (delivered h) =
    .ofList ((calls h).map Call.entry)) rfl ?_ ?_ ?_ ?_
  · intro h c k eff _ ih _ hk
    rw [calls_cons_call, List.map_cons, ← Multiset.cons_coe, ← ih]
    dsimp only
    rw [Multiset.map_add, Multiset.map_coe, (of_call_ok hk).2, delivered, add_right_comm]
    exact add_comm _ _
  · intro h c k f _ _ _ hk
    exact absurd hk call_ne_error
  · intro h s m rest eff _ ih _ hk
    rw [relay_eq] at hk
    cases hk
    rw [calls_cons_deliver, ← ih, delivered]
    simp only [Multiset.coe_nil, add_zero, Multiset.map_cons, ← Multiset.cons_coe,
      Multiset.add_cons, Multiset.cons_add]
  · intro h s m rest f _ _ _ hk
    rw [relay_eq] at hk
    cases hk

end MillionPixel

end Preda

end RelayContracts
