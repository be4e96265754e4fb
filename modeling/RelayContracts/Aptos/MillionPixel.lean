import RelayContracts.Preda.MillionPixel
import RelayContracts.Synchronous

/-!
# The Aptos million pixel module

The Move module `xtl_million_pixel`. One account stores all lands in a table, and a land is added to
the table when it is occupied. The struct `Land` and the packing of the coordinates are those of the
PREDA contract; in Move an overflow aborts.

`relays_agree_with_table` compares the two. PREDA decides at the delivery of a relay who gets a
pixel, Move at the call, so the calls to compare with are those of the PREDA run in the order in
which their relays were delivered. Both sides are then the same table in which the first entry wins.

## Main definitions

* `MillionPixel.initializeStore`, `MillionPixel.occupy`
* `MillionPixel.onStore` — a call of the PREDA contract, sent to the module
-/

namespace RelayContracts

namespace Aptos

namespace MillionPixel

open RelayMachine
open Preda.MillionPixel (Land pixelIndex pixelIndex_eq delivered)

/-- Why a transaction aborted. -/
inductive Abort where
  /-- `move_to` where the resource exists. -/
  | resourceAlreadyExists
  /-- `borrow_global_mut` where it does not. -/
  | missingData
  /-- `table::add` under a key that is there. -/
  | keyAlreadyExists
  /-- A `u32` overflowed. -/
  | arithmeticError
  deriving DecidableEq, Repr

/-- `struct LandStore`. -/
structure LandStore (A : Type) where
  /-- `land: Table<u32, Land>`. -/
  land : ℕ → Option (Land A)

/-- The resource `LandStore` of each account that has one. -/
abbrev Storage (A : Type) := A → Option (LandStore A)

/-- The functions of the module. -/
inductive Call (A : Type) where
  /-- `initialize(global_store)`. -/
  | initializeStore (globalStore : A)
  /-- `occupy(sender, global_land, x, y)`. -/
  | occupy (sender globalLand : A) (x y : UInt16)
  deriving DecidableEq, Repr

variable {A : Type}

/-- No account has a resource. -/
def empty : Storage A := fun _ => none

/-! ### The functions -/

variable [DecidableEq A]

/-- `initialize(global_store)`. -/
def initializeStore (globalStore : A) (s : Storage A) :
    Except Abort (Effect (Storage A) Empty Unit) :=
  match s globalStore with
  | some _ => .error .resourceAlreadyExists
  | none => .ok ⟨Function.update s globalStore (some ⟨fun _ => none⟩), (), []⟩

/-- `occupy(sender, global_land, x, y)`. -/
def occupy (sender globalLand : A) (x y : UInt16) (s : Storage A) :
    Except Abort (Effect (Storage A) Empty Unit) :=
  match pixelIndex .trap 65536 x y with
  | .error _ => .error .arithmeticError
  | .ok index =>
    match s globalLand with
    | none => .error .missingData
    | some landMp =>
      if (landMp.land index).isSome = false then do
        let land ← FirstWins.tableAdd .keyAlreadyExists landMp.land index ⟨true, sender⟩
        .ok ⟨Function.update s globalLand (some ⟨land⟩), (), []⟩
      else .ok ⟨s, (), []⟩

/-- The module as a machine without relays. -/
def machine : Machine (Storage A) (Call A) Empty Unit Abort where
  call
    | .initializeStore globalStore => initializeStore globalStore
    | .occupy sender globalLand x y => occupy sender globalLand x y
  relay m := m.elim

/-! ### The table -/

/-- The events of a run of the module, latest first. -/
abbrev History (A : Type) := List (Event (Call A) Empty Unit Abort)

/-- A call of the PREDA contract, sent to the module with the lands at `g`. -/
def onStore (g : A) : Preda.MillionPixel.Call A → Call A
  | .occupy sender x y => .occupy sender g x y

/-- The store at `g` holds a list of entries, of which the first wins. -/
def Stored (g : A) (es : List (ℕ × A)) (s : Storage A) : Prop :=
  s g = some ⟨fun i => (FirstWins.table es i).map fun a => ⟨true, a⟩⟩

variable {g : A} {es : List (ℕ × A)} {s : Storage A}

/-- Occupying is making an entry, and does not abort. -/
theorem Stored.occupy (hs : Stored g es s) (k : Preda.MillionPixel.Call A) :
    ∃ s', machine.call (onStore g k) s = .ok ⟨s', (), []⟩ ∧ Stored g (k.entry :: es) s' := by
  obtain ⟨sender, x, y⟩ := k
  set index := x.toNat * 65536 + y.toNat with hindex
  show ∃ s', MillionPixel.occupy sender g x y s = .ok ⟨s', (), []⟩ ∧
    Stored g ((index, sender) :: es) s'
  rw [MillionPixel.occupy, pixelIndex_eq .trap (Nat.le_refl 65536), ← hindex]
  simp only [show s g = _ from hs]
  cases htable : FirstWins.table es index with
  | some a =>
    refine ⟨s, by simp, ?_⟩
    rw [Stored, FirstWins.table, FirstWins.enter_of_some htable]
    exact hs
  | none =>
    refine ⟨Function.update s g (some ⟨Function.update
      (fun i => (FirstWins.table es i).map fun a => ⟨true, a⟩) index (some ⟨true, sender⟩)⟩),
      by simp [FirstWins.tableAdd, htable], ?_⟩
    rw [Stored, Function.update_self, FirstWins.table, FirstWins.enter_of_none htable]
    congr 2
    funext i
    by_cases hi : i = index
    · rw [hi, Function.update_self, Function.update_self, Option.map_some]
    · rw [Function.update_of_ne hi, Function.update_of_ne hi]

/-- A store that is published and then called. -/
theorem exists_session (g : A) (ks : List (Preda.MillionPixel.Call A)) :
    ∃ h s, machine.Run Anything ⟨empty, 0⟩ h ⟨s, 0⟩ ∧
      outcomes h = ks.map (fun k => (onStore g k, .ok ())) ++ [(.initializeStore g, .ok ())] ∧
      Stored g (ks.map Preda.MillionPixel.Call.entry) s := by
  induction ks with
  | nil =>
    have hk : machine.call (.initializeStore g) (empty : Storage A) =
        .ok ⟨Function.update empty g (some ⟨fun _ => none⟩), (), []⟩ := rfl
    exact ⟨_, _, Machine.Run.nil.step_call hk trivial, rfl, Function.update_self g _ _⟩
  | cons k ks ih =>
    obtain ⟨h, s, hr, hout, hs⟩ := ih
    obtain ⟨s', hk, hs'⟩ := hs.occupy k
    refine ⟨_, s', hr.step_call hk trivial, ?_, hs'⟩
    rw [outcomes_cons_call, hout]
    rfl

/-! ### Relays and table -/

section Comparison

variable {p : Overflow} {h : Preda.MillionPixel.History A}
  {c : Config (Preda.MillionPixel.State A) (Preda.MillionPixel.Relay A)}

omit [DecidableEq A] in
/-- With nothing in flight, the deliveries are an order of the calls. -/
theorem exists_order {s₀ : Preda.MillionPixel.State A}
    (hr : (Preda.MillionPixel.machine p).Run Anything ⟨s₀, 0⟩ h c) (hq : c.inFlight = 0) :
    ∃ order : List (Preda.MillionPixel.Call A), order.Perm (calls h) ∧
      order.map Preda.MillionPixel.Call.entry = delivered h := by
  have hentries := Preda.MillionPixel.entries_eq hr
  rw [hq, Multiset.map_zero, zero_add, Multiset.coe_eq_coe] at hentries
  have hcomp := congrFun₂ (List.eq_map_comp_perm Preda.MillionPixel.Call.entry)
    (delivered h) (calls h)
  obtain ⟨order, horder, hperm⟩ := hcomp.mpr hentries
  exact ⟨order, hperm, horder.symm⟩

/-- **PREDA's relays and the Aptos table agree.** With nothing in flight, a PREDA run has given
each pixel to the address that the Move module gives it to, where the calls are made in the order
in which their relays were delivered. At every point of the run, the owner of a pixel is the sender
of the first relay delivered for it and does not change any more, and no `uint32` has
overflowed. -/
theorem relays_agree_with_table [Zero A] (g : A)
    (hr : (Preda.MillionPixel.machine p).Run Anything ⟨Preda.MillionPixel.vacant, 0⟩ h c) :
    (c.inFlight = 0 → ∃ (order : List (Preda.MillionPixel.Call A)) (h' : History A)
      (s : Storage A) (store : LandStore A),
      order.Perm (calls h) ∧ order.map Preda.MillionPixel.Call.entry = delivered h ∧
      machine.Run Anything ⟨empty, 0⟩ h' ⟨s, 0⟩ ∧
      outcomes h' = order.map (fun k => (onStore g k, .ok ())) ++
        [(.initializeStore g, .ok ())] ∧
      s g = some store ∧
      ∀ (x y : UInt16) (a : A),
        (c.state.land (x.toNat * 65536 + y.toNat)).flag = true ∧
            (c.state.land (x.toNat * 65536 + y.toNat)).owner = a ↔
          ∃ land, store.land (x.toNat * 65536 + y.toNat) = some land ∧ land.owner = a) ∧
    (∀ i a, (c.state.land i).flag = true ∧ (c.state.land i).owner = a ↔
      ∃ es₂ es₁, delivered h = es₂ ++ (i, a) :: es₁ ∧ ∀ e ∈ es₁, e.1 ≠ i) ∧
    (∀ h₁ c₁, h₁ <:+ h →
      (Preda.MillionPixel.machine p).Run Anything ⟨Preda.MillionPixel.vacant, 0⟩ h₁ c₁ →
      ∀ i, (c₁.state.land i).flag = true → c.state.land i = c₁.state.land i) ∧
    (∀ k r, .call k r ∈ h → r = .ok ()) ∧
    ∀ x y : UInt16, pixelIndex p 65536 x y = .ok (x.toNat * 65536 + y.toNat) ∧
      x.toNat * 65536 + y.toNat < 2 ^ 32 := by
  have hfirst : ∀ i a, (c.state.land i).flag = true ∧ (c.state.land i).owner = a ↔
      FirstWins.table (delivered h) i = some a := by
    intro i a
    rw [← Preda.MillionPixel.occupants_eq hr]
    exact Land.occupant_eq_some_iff.symm
  refine ⟨?_, ?_, ?_, ?_, ?_⟩
  · intro hq
    obtain ⟨order, hperm, horder⟩ := exists_order hr hq
    obtain ⟨h', s, hr', hout, hs⟩ := exists_session g order
    refine ⟨order, h', s, _, hperm, horder, hr', hout, hs, fun x y a => ?_⟩
    rw [hfirst, horder]
    simp
  · intro i a
    rw [hfirst, FirstWins.table_eq_some_iff]
  · intro h₁ c₁ hsuffix hr₁ i hflag
    exact Preda.MillionPixel.land_eq_of_suffix hr hr₁ hsuffix hflag
  · exact fun k r => Preda.MillionPixel.ok_of_mem hr
  · intro x y
    refine ⟨pixelIndex_eq p (Nat.le_refl 65536) x y, ?_⟩
    have hx := x.toNat_lt
    have hy := y.toNat_lt
    omega

/-- Two addresses want the same pixel. The relay of the second is delivered first, and the pixel is
its, here and there. -/
theorem relays_agree_with_table_overtaken :
    ∃ (h : Preda.MillionPixel.History (Fin 2))
      (c : Config (Preda.MillionPixel.State (Fin 2)) (Preda.MillionPixel.Relay (Fin 2))),
      (Preda.MillionPixel.machine .trap).Run Anything ⟨Preda.MillionPixel.vacant, 0⟩ h c ∧
      calls h = [.occupy 1 3 4, .occupy 0 3 4] ∧ c.inFlight = 0 ∧
      ∃ (h' : History (Fin 2)) (s : Storage (Fin 2)) (store : LandStore (Fin 2))
        (land : Land (Fin 2)), machine.Run Anything ⟨empty, 0⟩ h' ⟨s, 0⟩ ∧ s 0 = some store ∧
        store.land 196612 = some land ∧ land.owner = 1 := by
  obtain ⟨⟨h, c⟩, hx, hcalls, hq, hland⟩ :
      ∃ r ∈ (Preda.MillionPixel.machine .trap).exec Anything
        ⟨(Preda.MillionPixel.vacant : Preda.MillionPixel.State (Fin 2)), 0⟩
        [.call (.occupy 0 3 4), .call (.occupy 1 3 4), .deliver (.occupy 196612 1),
          .deliver (.occupy 196612 0)],
        calls r.1 = [.occupy 1 3 4, .occupy 0 3 4] ∧ r.2.inFlight = 0 ∧
        (r.2.state.land 196612).flag = true ∧ (r.2.state.land 196612).owner = 1 := by decide
  have hr := Machine.exec_run hx
  obtain ⟨order, h', s, store, -, -, hr', -, hs, hagree⟩ := (relays_agree_with_table 0 hr).1 hq
  obtain ⟨land, hstore, howner⟩ := (hagree 3 4 1).mp hland
  exact ⟨h, c, hr, hcalls, hq, h', s, store, land, hr', hs, hstore, howner⟩

end Comparison

end MillionPixel

end Aptos

end RelayContracts
