import RelayContracts.Sei.Kitty

/-!
# The newborns of the Sei kitty contract

The key of a newborn is meant to be another one each time: the length of `newBorns`, with the top
bit set. But `addNewBorn` counts the newborn in `newBornNums` and pushes nothing, so the key is
`2 ^ 255` each time. An origin that breeds twice is left with the second newborn only, while
`newBornNums` counts both.

`newborns_intact_iff` says how far the contract can be relied on. Each breed has left a newborn of
its own, in every state of a run, exactly if no origin bred successfully with its slot taken, and no
mint was made after the first `2 ^ 255`, whose id would have the top bit set.
-/

namespace RelayContracts

namespace Sei

namespace KittyBreeding

open RelayMachine
open Preda.KittyBreeding (KittyInfo Kitty Minted Birth)

variable {A : Type}

/-- There is an entry `myKitties[a][i]`, under a key with the top bit set. -/
def State.IsNewborn (st : State A) (a : A) (i : ℕ) : Prop :=
  i.testBit 255 ∧ (st.myKitties a i).isSome

variable [DecidableEq A]

/-- The newborns of a history initiated by `a`, latest first. -/
def birthsOf (a : A) (h : History A) : List (Birth A ℕ) :=
  (births h).filter fun b => b.initiator = a

/-- Every breed that succeeded has left a newborn of its own. -/
structure Intact (h : History A) (st : State A) : Prop where
  /-- The newborns stored for an address are those of its breeds, one by one. -/
  newborns : ∀ a, ∃ keys : List ℕ, keys.Nodup ∧ (∀ i, i ∈ keys ↔ st.IsNewborn a i) ∧
    keys.Forall₂ (fun i b => ∃ k, st.myKitties a i = some k ∧ k.genes = b.genes ∧
      k.matronId = b.m ∧ k.sireId = b.s) (birthsOf a h)
  /-- `newBornNums` is the number of newborns stored. -/
  total : ∃ entries : List (A × ℕ), entries.Nodup ∧
    (∀ e, e ∈ entries ↔ st.IsNewborn e.1 e.2) ∧ st.newBornNums = entries.length

/-- The guard under which a mint gets an id without the top bit, and a breed that succeeds finds no
newborn of its origin. -/
def Fresh (_ : History A) (c : Config (State A) Empty) : Event (Call A) Empty Unit Fault → Prop
  | .call (.mint _ _ _) _ => c.state.allKitties.length < 2 ^ 255
  | .call (.breed origin _ m s _) _ =>
    (∃ matron sire, Breedable c.state m s matron sire) → c.state.myKitties origin (2 ^ 255) = none
  | _ => True

instance (st : State A) (m s : ℕ) : Decidable (∃ matron sire, Breedable st m s matron sire) :=
  decidable_of_iff (∃ matron ∈ st.allKitties[m]?, ∃ sire ∈ st.allKitties[s]?,
    matron.gender = true ∧ sire.gender = false ∧ (st.read matron.owner m).genes < 2 ^ 256 - 1 ∧
      (st.read sire.owner s).genes < 2 ^ 256 - 1 ∧ st.newBornNums + 1 < 2 ^ 32) <| by
    constructor
    · rintro ⟨matron, hmatron, sire, hsire, hm, hs, hmgenes, hsgenes, hroom⟩
      exact ⟨matron, sire, ⟨hmatron, hsire, hm, hs⟩, hmgenes, hsgenes, hroom⟩
    · rintro ⟨matron, sire, ⟨hmatron, hsire, hm, hs⟩, hmgenes, hsgenes, hroom⟩
      exact ⟨matron, hmatron, sire, hsire, hm, hs, hmgenes, hsgenes, hroom⟩

instance (h : History A) (c : Config (State A) Empty) (e : Event (Call A) Empty Unit Fault) :
    Decidable (Fresh h c e) :=
  match e with
  | .call (.mint _ _ _) _ => inferInstanceAs (Decidable (_ < _))
  | .call (.breed origin _ m s _) _ => inferInstanceAs (Decidable ((∃ matron sire,
      Breedable c.state m s matron sire) → c.state.myKitties origin (2 ^ 255) = none))
  | .call (.mintInner ..) _ | .call (.addNewKittyToAddr₃ ..) _ | .call (.addNewKittyToAddr₅ ..) _
  | .call (.addMGenes ..) _ | .call (.addSGenes ..) _ | .call (.addNewBorn ..) _
  | .call (.newBlock _) _ => isTrue trivial
  | .deliver m _ => m.elim

variable {h : History A} {c c' : Config (State A) Empty} {st : State A} {a : A}

theorem mem_birthsOf {b : Birth A ℕ} : b ∈ birthsOf a h ↔ b ∈ births h ∧ b.initiator = a := by
  rw [birthsOf, List.mem_filter, decide_eq_true_eq]

theorem exists_mem_birthsOf : (∃ b, b ∈ birthsOf a h) ↔ ∃ b ∈ births h, b.initiator = a :=
  exists_congr fun _ => mem_birthsOf

/-! ### Where newborns are -/

/-- A list of distinct elements that are all the same has one at most. -/
theorem length_le_one_of_forall_eq {α : Type} {l : List α} {x : α} (hnodup : l.Nodup)
    (hall : ∀ y ∈ l, y = x) : l.length ≤ 1 :=
  (List.subperm_of_subset hnodup fun y hy => List.mem_singleton.mpr (hall y hy)).length_le

namespace Booked

/-- A newborn is stored under `2 ^ 255`, for the origin of a breed. -/
theorem isNewborn_iff (hb : Booked h st) {i : ℕ} :
    st.IsNewborn a i ↔ i = 2 ^ 255 ∧ ∃ b ∈ births h, b.initiator = a := by
  have hmap := hb.myKitties a i
  rw [State.IsNewborn, ← Option.isSome_map (f := body), hmap]
  rcases lt_trichotomy i (2 ^ 255) with hlt | rfl | hgt
  · rw [Nat.testBit_lt_two_pow hlt]
    constructor
    · rintro ⟨hbit, -⟩
      cases hbit
    · rintro ⟨rfl, -⟩
      exact absurd hlt (lt_irrefl _)
  · rw [entry_newborn, Option.isSome_map, List.find?_isSome]
    simp only [Nat.testBit_two_pow_self, true_and, decide_eq_true_eq]
  · rw [entry_of_gt hgt]
    constructor
    · rintro ⟨-, hsome⟩
      cases hsome
    · rintro ⟨rfl, -⟩
      exact absurd hgt (lt_irrefl _)

/-- The newborn of an address is the one of its last breed. -/
theorem newborn_eq (hb : Booked h st) {b : Birth A ℕ} (hlast : (birthsOf a h).head? = some b) :
    ∃ k, st.myKitties a (2 ^ 255) = some k ∧ k.genes = b.genes ∧ k.matronId = b.m ∧
      k.sireId = b.s := by
  have hmap := hb.myKitties a (2 ^ 255)
  rw [entry_newborn, ← List.head?_filter, ← birthsOf, hlast, Option.map_some] at hmap
  obtain ⟨k, hk, hbody⟩ := Option.map_eq_some_iff.mp hmap
  exact ⟨k, hk, congrArg Kitty.genes hbody, congrArg Kitty.matronId hbody,
    congrArg Kitty.sireId hbody⟩

end Booked

/-- An address that has bred twice has lost a newborn. -/
theorem Intact.length_birthsOf_le (hint : Intact h st) (hb : Booked h st) (a : A) :
    (birthsOf a h).length ≤ 1 := by
  obtain ⟨keys, hnodup, hkeys, hcarry⟩ := hint.newborns a
  rw [← hcarry.length_eq]
  exact length_le_one_of_forall_eq hnodup fun i hi => (hb.isNewborn_iff.mp ((hkeys i).mp hi)).1

/-- Every newborn stored comes from a breed. -/
theorem Intact.exists_birth (hint : Intact h st) {i : ℕ} (hnew : st.IsNewborn a i) :
    ∃ b ∈ births h, ∃ k, st.myKitties a i = some k ∧ k.matronId = b.m := by
  obtain ⟨keys, -, hkeys, hcarry⟩ := hint.newborns a
  obtain ⟨n, rfl⟩ := List.mem_iff_get.mp ((hkeys i).mpr hnew)
  obtain ⟨k, hk, -, hm, -⟩ := hcarry.get n.2 (hcarry.length_eq ▸ n.2)
  exact ⟨_, (mem_birthsOf.mp (List.get_mem _ _)).1, k, hk, hm⟩

/-- While no address has bred twice, every newborn is there. -/
theorem Booked.intact (hb : Booked h st) (hnodup : ((births h).map (·.initiator)).Nodup) :
    Intact h st where
  newborns a := by
    have hsub : ((birthsOf a h).map (·.initiator)).Nodup :=
      hnodup.sublist (List.filter_sublist.map _)
    have hlen : (birthsOf a h).length ≤ 1 := by
      rw [← List.length_map (·.initiator)]
      refine length_le_one_of_forall_eq hsub (x := a) fun y hy => ?_
      obtain ⟨b, hb, rfl⟩ := List.mem_map.mp hy
      exact (mem_birthsOf.mp hb).2
    cases hl : birthsOf a h with
    | nil =>
      refine ⟨[], List.nodup_nil, fun i => ?_, .nil⟩
      rw [hb.isNewborn_iff, ← exists_mem_birthsOf, hl]
      simp only [List.not_mem_nil, exists_false, and_false]
    | cons b l =>
      obtain rfl : l = [] := by
        rw [hl] at hlen
        exact List.eq_nil_of_length_eq_zero (Nat.le_zero.mp (Nat.le_of_succ_le_succ hlen))
      refine ⟨[2 ^ 255], List.nodup_singleton _, fun i => ?_,
        .cons (hb.newborn_eq (by rw [hl]; rfl)) .nil⟩
      rw [hb.isNewborn_iff, ← exists_mem_birthsOf, hl, List.mem_singleton]
      exact (and_iff_left ⟨b, List.mem_singleton_self b⟩).symm
  total := by
    refine ⟨(births h).map fun b => (b.initiator, 2 ^ 255), ?_, ?_, ?_⟩
    · refine .of_map Prod.fst ?_
      rw [List.map_map]
      exact hnodup
    · rintro ⟨a, i⟩
      rw [hb.isNewborn_iff, List.mem_map]
      constructor
      · rintro ⟨b, hb, heq⟩
        cases heq
        exact ⟨rfl, b, hb, rfl⟩
      · rintro ⟨rfl, b, hb, rfl⟩
        exact ⟨b, hb, rfl⟩
    · rw [hb.newBornNums, List.length_map]

/-! ### Runs -/

/-- Under the guard all mints are below the top bit, and no address breeds twice. -/
theorem nodup_of_fresh (hr : machine.Run Fresh ⟨deployed A, 0⟩ h c)
    (hops : ∀ k ∈ calls h, k.isOperation) :
    (mints h).length ≤ 2 ^ 255 ∧ ((births h).map (·.initiator)).Nodup := by
  revert hops
  refine hr.call_invariant (I := fun h c => (∀ k ∈ calls h, k.isOperation) →
    (mints h).length ≤ 2 ^ 255 ∧ ((births h).map (·.initiator)).Nodup) ?_ ?_ ?_
  · intro _
    exact ⟨Nat.zero_le _, List.nodup_nil⟩
  · intro h c k eff hr ih hg hk hops
    rw [calls_cons_call, List.forall_mem_cons] at hops
    obtain ⟨hn, hnodup⟩ := ih hops.2
    have hb := booked_of_run hr hops.2 hn
    obtain ⟨st', hst', rfl⟩ := call_eq_ok.mp hk
    cases k with
    | mint owner genes gender =>
      refine ⟨?_, hnodup⟩
      rw [mints, List.length_append, ← hb.length_eq]
      exact hg
    | breed origin scope m s gender =>
      obtain ⟨matron, sire, hbreed, rfl⟩ := (breed_eq_ok scope).mp hst'
      refine ⟨hn, List.nodup_cons.mpr ⟨fun hmem => ?_, hnodup⟩⟩
      obtain ⟨b, hmem, hinit⟩ := List.mem_map.mp hmem
      have hnew := hb.isNewborn_iff.mpr ⟨rfl, b, hmem, hinit⟩
      rw [State.IsNewborn, hg ⟨matron, sire, hbreed⟩] at hnew
      cases hnew.2
    | newBlock number => exact ⟨hn, hnodup⟩
    | _ => cases hops.1
  · intro h c k f _ ih _ hk hops
    rw [calls_cons_call, List.forall_mem_cons] at hops
    cases k with
    | mint owner genes gender => cases hk
    | _ => exact ih hops.2

theorem intact_of_fresh (hr : machine.Run Fresh ⟨deployed A, 0⟩ h c)
    (hops : ∀ k ∈ calls h, k.isOperation) : Intact h c.state := by
  obtain ⟨hn, hnodup⟩ := nodup_of_fresh hr hops
  exact (booked_of_run hr hops hn).intact hnodup

/-- A mint whose id has the top bit set leaves an entry that no breed has made. -/
theorem Intact.lt_of_mint {owner : A} {genes : ℕ} {gender : Bool} {r : Except Fault Unit}
    (hb : Booked h st) (hn : (mints h).length ≤ 2 ^ 255)
    (hint : Intact (.call (.mint owner genes gender) r :: h) (mint owner genes gender st)) :
    st.allKitties.length < 2 ^ 255 := by
  by_contra hlt
  have hlen : st.allKitties.length = 2 ^ 255 := le_antisymm (hb.length_eq ▸ hn) (not_lt.mp hlt)
  have hput : (mint owner genes gender st).myKitties owner (2 ^ 255) =
      some ⟨st.allKitties.length, genes, 2 ^ 256 - 1, 2 ^ 256 - 1, st.blockNumber⟩ :=
    (State.put_myKitties owner st.allKitties.length _ _ owner (2 ^ 255)).trans (if_pos ⟨rfl, hlen⟩)
  obtain ⟨b, hmem, k, hk, hm⟩ := hint.exists_birth (a := owner) (i := 2 ^ 255)
    ⟨Nat.testBit_two_pow_self, by rw [hput]; rfl⟩
  cases hput.symm.trans hk
  have hlt : b.m < (mints h).length := hb.matrons b hmem
  have hm : 2 ^ 256 - 1 = b.m := hm
  omega

/-- A breed that succeeds with the slot of its origin taken leaves no trace of the newborn there. -/
theorem Intact.eq_none_of_breed {origin scope : A} {m s : ℕ} {gender : Bool} {st' : State A}
    (hb : Booked h st) (hb' : Booked (.call (.breed origin scope m s gender) (.ok ()) :: h) st')
    (hint : Intact (.call (.breed origin scope m s gender) (.ok ()) :: h) st') :
    st.myKitties origin (2 ^ 255) = none := by
  by_contra hne
  have hnew : st.IsNewborn origin (2 ^ 255) :=
    ⟨Nat.testBit_two_pow_self, Option.isSome_iff_ne_none.mpr hne⟩
  obtain ⟨b, hmem⟩ := exists_mem_birthsOf.mpr (hb.isNewborn_iff.mp hnew).2
  have hlen := hint.length_birthsOf_le hb' origin
  rw [birthsOf, births, List.filter_cons_of_pos (by simp), ← birthsOf, List.length_cons] at hlen
  exact absurd (List.length_pos_of_mem hmem) (by omega)

/-- A step after which every newborn is there meets the guard. -/
theorem fresh_of_intact {e : Event (Call A) Empty Unit Fault}
    (hr : machine.Run Fresh ⟨deployed A, 0⟩ h c) (hs : machine.Step c e c')
    (hops : ∀ k ∈ calls (e :: h), k.isOperation) (hint : Intact (e :: h) c'.state) :
    Fresh h c e := by
  have hops₁ : ∀ k ∈ calls h, k.isOperation := fun k hk =>
    hops k ((calls_suffix (List.suffix_cons e h)).subset hk)
  obtain ⟨hn, -⟩ := nodup_of_fresh hr hops₁
  have hb := booked_of_run hr hops₁ hn
  cases e with
  | deliver m r => exact m.elim
  | call k r =>
    cases k with
    | mint owner genes gender =>
      obtain ⟨-, rfl⟩ := hs.of_call_ok rfl
      exact hint.lt_of_mint hb hn
    | breed origin scope m s gender =>
      rintro ⟨matron, sire, hbreed⟩
      obtain ⟨rfl, rfl⟩ := hs.of_call_ok (hbreed.call_eq origin scope gender)
      exact hint.eq_none_of_breed hb (hb.breed hn hbreed origin scope gender)
    | _ => trivial

/-- **When no newborn is overwritten.** In any sequence of mints and breeds: in every state, each
breed so far that succeeded has left a newborn of its own, and `newBornNums` counts the newborns
that are there, if and only if every mint was among the first `2 ^ 255` and every breed that
succeeded found no newborn of its origin. -/
theorem newborns_intact_iff (hr : machine.Run Anything ⟨deployed A, 0⟩ h c)
    (hops : ∀ k ∈ calls h, k.isOperation) :
    (∀ h₁ c₁, h₁ <:+ h → machine.Run Anything ⟨deployed A, 0⟩ h₁ c₁ → Intact h₁ c₁.state) ↔
      machine.Run Fresh ⟨deployed A, 0⟩ h c := by
  constructor
  · intro hint
    induction hr with
    | nil => exact .nil
    | @step h c c' e hr hs hg ih =>
      have hrf := ih (fun k hk => hops k ((calls_suffix (List.suffix_cons e h)).subset hk))
        fun h₁ c₁ hs => hint h₁ c₁ (hs.trans (List.suffix_cons e h))
      exact hrf.step hs (fresh_of_intact hrf hs hops
        (hint _ _ List.suffix_rfl (hr.step hs trivial)))
  · intro hrf h₁ c₁ hs hr₁
    obtain ⟨c₂, hr₂⟩ := hrf.of_suffix hs
    obtain rfl := hr₁.unique hr₂
    exact intact_of_fresh hr₂ fun k hk => hops k ((calls_suffix hs).subset hk)

/-- Addresses 0 and 1 breed the same two kitties once each, and both have a newborn. -/
theorem newborns_intact_apart :
    ∃ (h : History (Fin 2)) (c : Config (State (Fin 2)) Empty),
      machine.Run Fresh ⟨deployed (Fin 2), 0⟩ h c ∧
      calls h = [.breed 1 1 0 1 true, .breed 0 0 0 1 true, .mint 0 9 false, .mint 0 4 true] ∧
      c.state.newBornNums = 2 ∧ Intact h c.state := by
  obtain ⟨⟨h, c⟩, hx, hcalls, hnums⟩ :
      ∃ r ∈ machine.exec Fresh ⟨deployed (Fin 2), 0⟩
        [.call (.mint 0 4 true), .call (.mint 0 9 false), .call (.breed 0 0 0 1 true),
          .call (.breed 1 1 0 1 true)],
        calls r.1 =
            [.breed 1 1 0 1 true, .breed 0 0 0 1 true, .mint 0 9 false, .mint 0 4 true] ∧
          r.2.state.newBornNums = 2 := by decide
  have hrf := Machine.exec_run hx
  have hr := hrf.mono fun _ _ _ _ => trivial
  exact ⟨h, c, hrf, hcalls, hnums, (newborns_intact_iff hr (by rw [hcalls]; decide)).mpr hrf h c
    List.suffix_rfl hr⟩

/-- One origin breeds a matron with two sires, one after the other. Both breeds succeed, and only
the newborn of the second is there. -/
theorem first_newborn_replaced :
    ∃ (h : History (Fin 1)) (c : Config (State (Fin 1)) Empty),
      machine.Run Anything ⟨deployed (Fin 1), 0⟩ h c ∧
      calls h = [.breed 0 0 0 2 true, .breed 0 0 0 1 true, .mint 0 16 false, .mint 0 9 false,
        .mint 0 4 true] ∧
      (birthsOf 0 h).length = 2 ∧ c.state.newBornNums = 2 ∧
      (∀ i, c.state.IsNewborn 0 i ↔ i = 2 ^ 255) ∧
      c.state.myKitties 0 (2 ^ 255) = some ⟨2 ^ 255, 8, 0, 2, 0⟩ ∧ ¬ Intact h c.state := by
  obtain ⟨⟨h, c⟩, hx, hcalls, hmints, hbirths, hnums, hkitty⟩ :
      ∃ r ∈ machine.exec Anything ⟨deployed (Fin 1), 0⟩
        [.call (.mint 0 4 true), .call (.mint 0 9 false), .call (.mint 0 16 false),
          .call (.breed 0 0 0 1 true), .call (.breed 0 0 0 2 true)],
        calls r.1 = [.breed 0 0 0 2 true, .breed 0 0 0 1 true, .mint 0 16 false, .mint 0 9 false,
            .mint 0 4 true] ∧
          (mints r.1).length = 3 ∧ (birthsOf 0 r.1).length = 2 ∧ r.2.state.newBornNums = 2 ∧
          r.2.state.myKitties 0 (2 ^ 255) = some ⟨2 ^ 255, 8, 0, 2, 0⟩ := by decide
  have hr := Machine.exec_run hx
  have hb : Booked h c.state :=
    booked_of_run hr (by rw [hcalls]; decide) (by rw [hmints]; decide)
  have hmem : ∃ b ∈ births h, b.initiator = 0 :=
    exists_mem_birthsOf.mp (List.exists_mem_of_length_pos (by rw [hbirths]; decide))
  refine ⟨h, c, hr, hcalls, hbirths, hnums, fun i => ?_, hkitty, fun hint => ?_⟩
  · rw [hb.isNewborn_iff, and_iff_left hmem]
  · exact absurd (hint.length_birthsOf_le hb 0) (by rw [hbirths]; decide)

end KittyBreeding

end Sei

end RelayContracts
