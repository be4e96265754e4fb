import RelayContracts.Preda.MillionPixel
import RelayContracts.Synchronous

/-!
# The Sei million pixel contract

The contract of `MillionPixel.sol` among the Sei contracts. It packs the coordinates of a pixel with
the factor `65535`, one less than there are values of `y`. So the last pixel of a row and the first
of the next, `(x, 65535)` and `(x + 1, 0)`, have the same land, and these are the only ones
(`indexOf_eq_iff`).

As a table of *indices* the contract is right: a call returns true if it is the first for its index
(`returned_true_iff`). `pixels_independent_iff` says that it is right as a table of *pixels* for
exactly those sequences of calls that do not touch two pixels with one land.
-/

namespace RelayContracts

namespace Sei

namespace MillionPixel

open RelayMachine
open Preda.MillionPixel (Land State vacant pixelIndex pixelIndex_eq occupyLand occupants_occupyLand)

/-- The functions. -/
inductive Call (A : Type) where
  /-- `occupy(sender, x, y)`. -/
  | occupy (msgSender sender : A) (x y : UInt16)
  deriving DecidableEq, Repr

variable {A : Type} [DecidableEq A]

/-- `occupy(sender, x, y)`. -/
def occupy (msgSender sender : A) (x y : UInt16) (s : State A) :
    Except Fault (Effect (State A) Empty Bool) :=
  if msgSender = sender then do
    let index ← pixelIndex .trap 65535 x y
    if (s.land index).flag = true then .ok ⟨s, false, []⟩
    else .ok ⟨⟨Function.update s.land index ⟨true, sender⟩⟩, true, []⟩
  else .error .assertion

/-- The contract as a machine without relays. -/
def machine : Machine (State A) (Call A) Empty Bool Fault where
  call
    | .occupy msgSender sender x y => occupy msgSender sender x y
  relay m := m.elim

/-! ### Calls -/

section Calls

omit [DecidableEq A]

/-- `msg.sender`. -/
def Call.msgSender : Call A → A
  | .occupy msgSender _ _ _ => msgSender

/-- The argument `sender`. -/
def Call.sender : Call A → A
  | .occupy _ sender _ _ => sender

/-- The pixel a call is for. -/
def Call.pixel : Call A → UInt16 × UInt16
  | .occupy _ _ x y => (x, y)

/-- The index of a pixel. -/
def indexOf (q : UInt16 × UInt16) : ℕ := q.1.toNat * 65535 + q.2.toNat

/-- One pixel is the last of a row and the other the first of the next. -/
def RowBreak (q q' : UInt16 × UInt16) : Prop :=
  q.2 = 65535 ∧ q'.2 = 0 ∧ q.1.toNat + 1 = q'.1.toNat

instance (q q' : UInt16 × UInt16) : Decidable (RowBreak q q') :=
  inferInstanceAs (Decidable (_ ∧ _ ∧ _))

/-- **Which pixels have the same land.** -/
theorem indexOf_eq_iff (q q' : UInt16 × UInt16) :
    indexOf q = indexOf q' ↔ q = q' ∨ RowBreak q q' ∨ RowBreak q' q := by
  obtain ⟨x, y⟩ := q
  obtain ⟨x', y'⟩ := q'
  have hy := y.toNat_lt
  have hy' := y'.toNat_lt
  have h65535 : ∀ z : UInt16, z = 65535 ↔ z.toNat = 65535 := fun z => UInt16.toNat_inj.symm
  have h0 : ∀ z : UInt16, z = 0 ↔ z.toNat = 0 := fun z => UInt16.toNat_inj.symm
  simp only [indexOf, RowBreak, Prod.mk.injEq, h65535, h0, ← UInt16.toNat_inj]
  omega

end Calls

/-- The entry a call asks for. -/
def Call.entry (k : Call A) : ℕ × A := (indexOf k.pixel, k.sender)

/-- What a call does that is made in its caller's name. -/
theorem call_eq {k : Call A} (hk : k.msgSender = k.sender) (s : State A) :
    machine.call k s = .ok ⟨occupyLand (indexOf k.pixel) k.sender s,
      !(s.land (indexOf k.pixel)).flag, []⟩ := by
  obtain ⟨p, a, x, y⟩ := k
  obtain rfl : p = a := hk
  show occupy p p x y s = _
  rw [occupy, if_pos rfl, pixelIndex_eq .trap (by decide), ok_bind, occupyLand]
  cases hflag : (s.land (x.toNat * 65535 + y.toNat)).flag with
  | true => simp [indexOf, Call.pixel, hflag]
  | false => simp [indexOf, Call.pixel, Call.sender, hflag]

/-! ### Along a run -/

/-- The events of a run of the contract, latest first. -/
abbrev History (A : Type) := List (Event (Call A) Empty Bool Fault)

/-- Every call is made in its caller's name. -/
def OwnName (h : History A) : Prop := ∀ k ∈ calls h, k.msgSender = k.sender

variable [Zero A] {h h₁ : History A} {c : Config (State A) Empty} {k : Call A}
  {r : Except Fault Bool}

omit [DecidableEq A] [Zero A] in
theorem OwnName.of_suffix (hown : OwnName h) (hs : h₁ <:+ h) : OwnName h₁ :=
  fun k hk => hown k ((calls_suffix hs).subset hk)

/-- The lands are a table of indices in which the first entry wins. -/
theorem occupants_eq (hr : machine.Run Anything ⟨vacant, 0⟩ h c) (hown : OwnName h) :
    c.state.occupants = FirstWins.table ((calls h).map Call.entry) := by
  induction hr with
  | nil => rfl
  | @step h c c' e hr hs hg ih =>
    cases e with
    | deliver m r => exact m.elim
    | call k r =>
      have hk := call_eq (hown k List.mem_cons_self) c.state
      obtain ⟨-, rfl⟩ := hs.of_call_ok hk
      show (occupyLand _ _ c.state).occupants = _
      rw [occupants_occupyLand, ih (hown.of_suffix (List.suffix_cons _ _))]
      rfl

/-- **A call returns true** if it is the first for its index. -/
theorem returned_true_iff (hr : machine.Run Anything ⟨vacant, 0⟩ h c) (hown : OwnName h)
    (hs : .call k r :: h₁ <:+ h) :
    r = .ok true ↔ ∀ k' ∈ calls h₁, indexOf k'.pixel ≠ indexOf k.pixel := by
  obtain ⟨c', hr'⟩ := hr.of_suffix hs
  cases hr' with
  | @step _ c₁ _ _ hr₁ hst hg =>
    have hown' := hown.of_suffix hs
    have hk := call_eq (hown' k List.mem_cons_self) c₁.state
    have hocc := congrFun (occupants_eq hr₁ (hown'.of_suffix (List.suffix_cons _ _)))
      (indexOf k.pixel)
    have hnone : (c₁.state.land (indexOf k.pixel)).flag = false ↔
        ∀ k' ∈ calls h₁, indexOf k'.pixel ≠ indexOf k.pixel := by
      rw [← Land.occupant_eq_none_iff]
      show c₁.state.occupants (indexOf k.pixel) = none ↔ _
      rw [hocc, FirstWins.table_eq_none_iff, List.forall_mem_map]
      rfl
    rw [(hst.of_call_ok hk).1, ← hnone]
    simp

/-- If an index has been asked for, somebody has got it. -/
theorem exists_returned_true (hr : machine.Run Anything ⟨vacant, 0⟩ h c) (hown : OwnName h)
    (hk : k ∈ calls h) :
    ∃ k', .call k' (.ok true) ∈ h ∧ indexOf k'.pixel = indexOf k.pixel := by
  induction hr generalizing k with
  | nil => cases hk
  | @step h c c' e hr hs hg ih =>
    cases e with
    | deliver m r => exact m.elim
    | call k₁ r =>
      have ih : ∀ {k}, k ∈ calls h →
          ∃ k', .call k' (.ok true) ∈ (.call k₁ r :: h) ∧ indexOf k'.pixel = indexOf k.pixel := by
        intro k hk
        obtain ⟨k', hk', hindex⟩ := ih (hown.of_suffix (List.suffix_cons _ _)) hk
        exact ⟨k', List.mem_cons_of_mem _ hk', hindex⟩
      rcases List.mem_cons.mp hk with rfl | hk
      · by_cases htrue : r = .ok true
        · exact ⟨k, htrue ▸ List.mem_cons_self, rfl⟩
        · have hret := returned_true_iff (hr.step hs hg) hown List.suffix_rfl
          simp only [hret, not_forall, not_not] at htrue
          obtain ⟨k', hk', hindex⟩ := htrue
          obtain ⟨k'', hk'', hindex'⟩ := ih hk'
          exact ⟨k'', hk'', hindex'.trans hindex⟩
      · exact ih hk

/-! ### Pixels -/

/-- Every call returned true if no earlier one for the same pixel had. -/
def FirstPerPixel (h : History A) : Prop :=
  ∀ h₁ k r, .call k r :: h₁ <:+ h →
    (r = .ok true ↔ ∀ k', .call k' (.ok true) ∈ h₁ → k'.pixel ≠ k.pixel)

/-- Every pixel that was called for is owned by the first who called. -/
def OwnedByFirst (h : History A) (s : State A) : Prop :=
  ∀ ks₂ k ks₁, calls h = ks₂ ++ k :: ks₁ → (∀ k' ∈ ks₁, k'.pixel ≠ k.pixel) →
    s.land (indexOf k.pixel) = ⟨true, k.sender⟩

/-- No two calls for different pixels share a land. -/
def Apart (h : History A) : Prop :=
  ∀ ⦃k k' : Call A⦄, k ∈ calls h → k' ∈ calls h → indexOf k.pixel = indexOf k'.pixel →
    k.pixel = k'.pixel

/-- If calls are answered pixel by pixel, no two of them share a land. -/
theorem FirstPerPixel.apart (hfirst : FirstPerPixel h)
    (hr : machine.Run Anything ⟨vacant, 0⟩ h c) (hown : OwnName h) : Apart h := by
  intro k k' hk hk' hindex
  induction hr generalizing k k' with
  | nil => cases hk
  | @step h c c' e hr hs hg ih =>
    cases e with
    | deliver m r => exact m.elim
    | call k₁ r =>
      have hsuffix : h <:+ .call k₁ r :: h := List.suffix_cons _ _
      have ih : Apart h :=
        ih (fun h₁ k r hs₁ => hfirst h₁ k r (hs₁.trans hsuffix)) (hown.of_suffix hsuffix)
      -- a call that finds its land taken has been preceded by one for its own pixel
      have hlatest : ∀ {k : Call A}, k ∈ calls h → indexOf k.pixel = indexOf k₁.pixel →
          k.pixel = k₁.pixel := by
        intro k hk hindex
        have hret := returned_true_iff (hr.step hs hg) hown List.suffix_rfl
        have htaken : ¬ ∀ k', .call k' (.ok true) ∈ h → k'.pixel ≠ k₁.pixel := by
          rw [← hfirst h k₁ r List.suffix_rfl, hret]
          exact fun hfree => hfree k hk hindex
        simp only [not_forall, not_not] at htaken
        obtain ⟨k', hk', hpixel⟩ := htaken
        rw [← hpixel]
        exact ih hk (mem_calls.mpr ⟨_, hk'⟩) (by rw [hindex, hpixel])
      rcases List.mem_cons.mp hk with rfl | hold
      · rcases List.mem_cons.mp hk' with rfl | hold'
        · rfl
        · exact (hlatest hold' hindex.symm).symm
      · rcases List.mem_cons.mp hk' with rfl | hold'
        · exact hlatest hold hindex
        · exact ih hold hold' hindex

omit [DecidableEq A] [Zero A] in
theorem apart_of_no_rowBreak
    (hbreak : ∀ k ∈ calls h, ∀ k' ∈ calls h, ¬ RowBreak k.pixel k'.pixel) : Apart h := by
  intro k k' hk hk' hindex
  rcases (indexOf_eq_iff _ _).mp hindex with heq | hb | hb
  · exact heq
  · exact absurd hb (hbreak k hk k' hk')
  · exact absurd hb (hbreak k' hk' k hk)

theorem Apart.firstPerPixel (hapart : Apart h) (hr : machine.Run Anything ⟨vacant, 0⟩ h c)
    (hown : OwnName h) : FirstPerPixel h := by
  intro h₁ k r hs
  have hk : k ∈ calls h := (calls_suffix hs).subset List.mem_cons_self
  have hsuffix : h₁ <:+ h := (List.suffix_cons _ _).trans hs
  rw [returned_true_iff hr hown hs]
  constructor
  · intro hfree k' hk' hpixel
    exact hfree k' (mem_calls.mpr ⟨_, hk'⟩) (by rw [hpixel])
  · intro hfree k' hk' hindex
    obtain ⟨c₁, hr₁⟩ := hr.of_suffix hsuffix
    obtain ⟨k'', hk'', hindex'⟩ := exists_returned_true hr₁ (hown.of_suffix hsuffix) hk'
    have hmem : k'' ∈ calls h := (calls_suffix hsuffix).subset (mem_calls.mpr ⟨_, hk''⟩)
    exact hfree k'' hk'' (hapart hmem hk (hindex'.trans hindex))

theorem Apart.ownedByFirst (hapart : Apart h) (hr : machine.Run Anything ⟨vacant, 0⟩ h c)
    (hown : OwnName h) : OwnedByFirst h c.state := by
  intro ks₂ k ks₁ hcalls hfree
  have hocc : c.state.occupants (indexOf k.pixel) = some k.sender := by
    rw [occupants_eq hr hown, hcalls, List.map_append, List.map_cons, FirstWins.table_eq_some_iff]
    refine ⟨_, _, rfl, ?_⟩
    rw [List.forall_mem_map]
    intro k' hk' hindex
    exact hfree k' hk' (hapart (by simp [hcalls, hk']) (by simp [hcalls]) hindex)
  obtain ⟨hflag, howner⟩ := Land.occupant_eq_some_iff.mp hocc
  exact Land.ext hflag howner

/-- **Pixels are independent** in a sequence of calls if and only if it does not touch both the last
pixel of a row and the first of the next. -/
theorem pixels_independent_iff (hr : machine.Run Anything ⟨vacant, 0⟩ h c)
    (hown : ∀ k ∈ calls h, k.msgSender = k.sender) :
    FirstPerPixel h ∧ OwnedByFirst h c.state ↔
      ∀ k ∈ calls h, ∀ k' ∈ calls h, ¬ RowBreak k.pixel k'.pixel := by
  constructor
  · rintro ⟨hfirst, -⟩ k hk k' hk' hbreak
    have hpixel := hfirst.apart hr hown hk hk'
      ((indexOf_eq_iff _ _).mpr (.inr (.inl hbreak)))
    obtain ⟨-, -, hrow⟩ := hbreak
    rw [hpixel] at hrow
    omega
  · intro hbreak
    have hapart := apart_of_no_rowBreak hbreak
    exact ⟨hapart.firstPerPixel hr hown, hapart.ownedByFirst hr hown⟩

/-- Calls for `(0, 65535)`, twice, and for `(1, 1)`. -/
theorem pixels_independent_apart :
    ∃ (h : History (Fin 2)) (c : Config (State (Fin 2)) Empty),
      machine.Run Anything ⟨vacant, 0⟩ h c ∧
      calls h = [.occupy 1 1 1 1, .occupy 1 1 0 65535, .occupy 0 0 0 65535] ∧
      FirstPerPixel h ∧ OwnedByFirst h c.state := by
  obtain ⟨h, c, hr, hcalls⟩ := machine.exists_run (vacant : State (Fin 2))
    [.occupy 1 1 1 1, .occupy 1 1 0 65535, .occupy 0 0 0 65535]
  refine ⟨h, c, hr, hcalls, (pixels_independent_iff hr ?_).mpr ?_⟩
  · rw [hcalls]
    decide
  · rw [hcalls]
    decide

/-- Nobody has called for `(1, 0)`, and yet the call for it returns false: `(0, 65535)` is taken. -/
theorem row_break_refused :
    ∃ (h : History (Fin 2)) (c : Config (State (Fin 2)) Empty),
      machine.Run Anything ⟨vacant, 0⟩ h c ∧ OwnName h ∧
      outcomes h = [(.occupy 1 1 1 0, .ok false), (.occupy 0 0 0 65535, .ok true)] ∧
      (c.state.land (indexOf (1, 0))).owner = 0 ∧ ¬ FirstPerPixel h := by
  have hk₀ : machine.call (.occupy 0 0 0 65535) (vacant : State (Fin 2)) =
      .ok ⟨occupyLand 65535 0 vacant, true, []⟩ := call_eq rfl _
  have hk₁ : machine.call (.occupy 1 1 1 0) (occupyLand 65535 (0 : Fin 2) vacant) =
      .ok ⟨occupyLand 65535 1 (occupyLand 65535 0 vacant), false, []⟩ := call_eq rfl _
  have hr : machine.Run Anything ⟨vacant, 0⟩ _ _ :=
    (Machine.Run.nil.step_call hk₀ trivial).step_call hk₁ trivial
  refine ⟨_, _, hr, ?_, rfl, rfl, fun hfirst => ?_⟩
  · show ∀ k ∈ [Call.occupy 1 1 1 0, Call.occupy (0 : Fin 2) 0 0 65535], k.msgSender = k.sender
    decide
  · have hfree := hfirst _ _ _ List.suffix_rfl
    have hne : ∀ k', .call k' (.ok true) ∈
        ([.call (.occupy 0 0 0 65535) (.ok true)] : History (Fin 2)) → k'.pixel ≠ (1, 0) := by
      intro k' hk'
      cases List.mem_singleton.mp hk'
      decide
    cases hfree.mpr hne

end MillionPixel

end Sei

end RelayContracts
