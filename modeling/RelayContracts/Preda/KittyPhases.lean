import RelayContracts.Preda.KittyGenes

/-!
# Breeding after minting

The runs of the test script: first the mints, until all their relays are delivered, and then the
breeds, in any order and with their relays delivered in any order, and no registration
(`BreedsAfterMints`). No breed overtakes the relay of a kitty then, so that breeding is faithful to
the mints (`bred_after_mints`), provided that no more than `2 ^ 31` kitties were minted: the next
one has the id `0x80000000`, which is the key of a newborn (`bred_after_too_many_mints`).

## Main results

* `bred_after_mints`
* `bred_after_too_many_mints`
-/

namespace RelayContracts

namespace Preda

namespace KittyBreeding

open RelayMachine

variable {A : Type} {k : ℕ}

/-- Whether a call is one of `breed`. -/
def Call.isBreed : Call A ℤ k → Bool
  | .breed _ _ _ _ => true
  | _ => false

/-- Mints come before breeds, and their relays too; nothing is registered, and a shard has less than
`2 ^ 31` newborns. -/
def BreedsAfterMints (X : Chain A) (h : History A ℤ X.shardOrder)
    (c : Config (State A ℤ X.shardOrder) (Relay A ℤ)) :
    Event (Call A ℤ X.shardOrder) (Relay A ℤ) Unit Fault → Prop
  | .call (.mint _ _ _) _ => ∀ k ∈ calls h, k.isBreed = false
  | .call (.breed _ _ _ _) _ => ∀ r ∈ c.inFlight, r.mintedId = none
  | .call (.registerNewBorns _) _ => False
  | .deliver (.storeNewBorn self _ _ _ _ _) _ =>
    (c.state.newBorns (X.shardOf self)).length < 2 ^ 31
  | _ => True

/-- Before the first breed only relays of mints are in flight, and after it none. -/
structure Phases (h : History A ℤ k) (c : Config (State A ℤ k) (Relay A ℤ)) : Prop where
  minting : (∀ k ∈ calls h, k.isBreed = false) → ∀ r ∈ c.inFlight, r.mintedId ≠ none
  breeding : (∃ k ∈ calls h, k.isBreed = true) → ∀ r ∈ c.inFlight, r.mintedId = none

section Runs

variable [DecidableEq A] {X : Chain A} {h : History A ℤ X.shardOrder}
  {c : Config (State A ℤ X.shardOrder) (Relay A ℤ)}

omit [DecidableEq A] in
theorem BreedsAfterMints.noRegister {e : Event (Call A ℤ X.shardOrder) (Relay A ℤ) Unit Fault}
    (hg : BreedsAfterMints X h c e) : NoRegister h c e := by
  cases e with
  | call k r =>
    cases k with
    | registerNewBorns => exact hg
    | _ => trivial
  | deliver m r => trivial

/-- The relay of a mint emits nothing, and no relay emits one. -/
theorem mintedId_of_emitted {st : State A ℤ X.shardOrder} {r r' : Relay A ℤ}
    {eff : Effect (State A ℤ X.shardOrder) (Relay A ℤ) Unit}
    (hk : Delivered X (bigint A X.shardOrder) st r eff) (hr' : r' ∈ eff.relays) :
    r.mintedId = none ∧ r'.mintedId = none := by
  cases hk with
  | storeMinted | storeNewBorn | registerNewBorn => exact absurd hr' List.not_mem_nil
  | breedMatron | breedSire =>
    cases List.mem_singleton.mp hr'
    exact ⟨rfl, rfl⟩
  | collectNewBorns ns =>
    obtain ⟨self, j, id, rfl⟩ := exists_of_mem_registrations hr'
    exact ⟨rfl, rfl⟩

omit [DecidableEq A] in
/-- A call other than `breed` does not change the phase. -/
theorem Phases.other (hp : Phases h c) {k : Call A ℤ X.shardOrder} (v : Except Fault Unit)
    (hk : k.isBreed = false) : Phases (.call k v :: h) c where
  minting hno := hp.minting fun k' hk' => hno k' (List.mem_cons_of_mem k hk')
  breeding := by
    rintro ⟨k', hk', hbreed⟩
    rcases List.mem_cons.mp hk' with rfl | hk'
    · exact absurd (hk.symm.trans hbreed) Bool.false_ne_true
    · exact hp.breeding ⟨k', hk', hbreed⟩

omit [DecidableEq A] in
/-- A breed starts the second phase. -/
theorem phases_breed {k : Call A ℤ X.shardOrder} (v : Except Fault Unit) (hk : k.isBreed = true)
    (hnone : ∀ r ∈ c.inFlight, r.mintedId = none) : Phases (.call k v :: h) c where
  minting hno := absurd ((hno k List.mem_cons_self).symm.trans hk) Bool.false_ne_true
  breeding _ := hnone

omit [DecidableEq A] in
/-- A mint before the first breed. -/
theorem Phases.mint (hp : Phases h c) {genes : ℤ} {gender : Bool} {owner : A}
    (hno : ∀ k ∈ calls h, k.isBreed = false) (st : State A ℤ X.shardOrder) (id : ℕ) :
    Phases (.call (.mint genes gender owner) (.ok ()) :: h)
      ⟨st, c.inFlight + ([.storeMinted owner genes gender id] : List (Relay A ℤ))⟩ where
  minting _ r hr := by
    rcases Multiset.mem_add.mp hr with hr | hr
    · exact hp.minting hno r hr
    · cases List.mem_singleton.mp hr
      exact Option.some_ne_none id
  breeding := by
    rintro ⟨k, hk, hbreed⟩
    rcases List.mem_cons.mp hk with rfl | hk
    · cases hbreed
    · exact absurd ((hno k hk).symm.trans hbreed) Bool.false_ne_true

/-- A relay stays in the phase it was emitted in. -/
theorem Phases.deliver {st : State A ℤ X.shardOrder} {r : Relay A ℤ} {rest : Multiset (Relay A ℤ)}
    {eff : Effect (State A ℤ X.shardOrder) (Relay A ℤ) Unit} (hp : Phases h ⟨st, r ::ₘ rest⟩)
    (hk : Delivered X (bigint A X.shardOrder) st r eff) (v : Except Fault Unit) :
    Phases (.deliver r v :: h) ⟨eff.state, rest + eff.relays⟩ where
  minting hno r' hr' := by
    rcases Multiset.mem_add.mp hr' with hr' | hr'
    · exact hp.minting hno r' (Multiset.mem_cons_of_mem hr')
    · exact absurd (mintedId_of_emitted hk hr').1
        (hp.minting hno r (Multiset.mem_cons_self r rest))
  breeding hbreed r' hr' := by
    rcases Multiset.mem_add.mp hr' with hr' | hr'
    · exact hp.breeding hbreed r' (Multiset.mem_cons_of_mem hr')
    · exact (mintedId_of_emitted hk hr').2

theorem phases_of_run
    (hr : (kitty X).Run (BreedsAfterMints X) ⟨deployed A ℤ X.shardOrder, 0⟩ h c) : Phases h c := by
  refine hr.invariant (I := Phases) ?_ ?_ ?_ ?_ ?_
  · exact ⟨fun _ r hr => absurd hr (Multiset.notMem_zero r),
      fun _ r hr => absurd hr (Multiset.notMem_zero r)⟩
  · intro h c k eff _ hp hg hk
    cases called_of_ok hk with
    | mint genes gender owner => exact hp.mint hg _ _
    | breed hm hs hgender =>
      refine phases_breed _ rfl fun r hr => ?_
      rcases Multiset.mem_add.mp hr with hr | hr
      · exact hg r hr
      · cases List.mem_singleton.mp hr
        rfl
    | register | registerNone => exact hg.elim
    | newBlock height =>
      have hp' := hp.other (k := .newBlock height) (.ok ()) rfl
      exact ⟨fun hno r hr => hp'.minting hno r (by simpa using hr),
        fun hbreed r hr => hp'.breeding hbreed r (by simpa using hr)⟩
  · intro h c k f _ hp hg _
    cases k with
    | breed => exact phases_breed _ rfl hg
    | _ => exact hp.other _ rfl
  · intro h st r rest eff _ hp _ hk
    exact hp.deliver (delivered_of_ok hk) _
  · intro h st r rest f _ hp _ _
    exact ⟨fun hno r' hr' => hp.minting hno r' (Multiset.mem_cons_of_mem hr'),
      fun hbreed r' hr' => hp.breeding hbreed r' (Multiset.mem_cons_of_mem hr')⟩

omit [DecidableEq A] in
/-- A relay of a breed is in flight in the second phase only. -/
theorem Phases.arrived (hp : Phases h c) {r : Relay A ℤ} (hr : r ∈ c.inFlight)
    (hnone : r.mintedId = none) : ∀ r' ∈ c.inFlight, r'.mintedId = none := by
  refine hp.breeding ?_
  by_contra hno
  refine hp.minting (fun k hk => ?_) r hr hnone
  exact Bool.eq_false_iff.mpr fun hbreed => hno ⟨k, hk, hbreed⟩

theorem mintedFirst_of_run
    (hr : (kitty X).Run (BreedsAfterMints X) ⟨deployed A ℤ X.shardOrder, 0⟩ h c)
    (hmints : (mints h).length ≤ 2 ^ 31) :
    (kitty X).Run (MintedFirst X) ⟨deployed A ℤ X.shardOrder, 0⟩ h c := by
  refine hr.within.mono_of_run fun {h' c' e c''} hr' hs hg => ?_
  have hr'' := hr'.mono fun _ _ _ hg => hg.1
  cases e with
  | call k r =>
    cases k with
    | mint genes gender owner =>
      cases hs with
      | callError hk => cases hk
      | callOk hk =>
        have hle : (mints (.call (.mint genes gender owner) (.ok ()) :: h')).length ≤ 2 ^ 31 :=
          (length_mints_le hg.2).trans hmints
        rw [mints_cons, List.length_append] at hle
        show c'.state.allKitties.length < 2 ^ 31
        rw [length_mints_of_run (hr''.mono fun _ _ _ hg => hg.noRegister)]
        exact hle
    | registerNewBorns => exact hg.1
    | _ => trivial
  | deliver m r =>
    have harrived := (phases_of_run hr'').arrived hs.mem_inFlight
    cases m with
    | breedMatron | breedSire =>
      intro r' hr' heq
      rw [harrived rfl r' hr'] at heq
      cases heq
    | storeNewBorn => exact hg.1
    | _ => trivial

/-- **Breeding after minting.** In every run in which all breeding comes after all minting, with no
registration and at most `2 ^ 31` mints: once nothing is in flight, the shards have as many newborns
as breeds were accepted, and breeding is faithful to the mints. -/
theorem bred_after_mints (X : Chain A) {h : History A ℤ X.shardOrder}
    {c : Config (State A ℤ X.shardOrder) (Relay A ℤ)}
    (hr : (kitty X).Run (BreedsAfterMints X) ⟨deployed A ℤ X.shardOrder, 0⟩ h c)
    (hmints : (mints h).length ≤ 2 ^ 31) (hq : c.inFlight = 0) :
    ∑ shard, (c.state.newBorns shard).length = (acceptedBreeds h).length ∧
      BredFromMints X h c := by
  refine ⟨?_, bred_from_mints_of_run (mintedFirst_of_run hr hmints) hq⟩
  have hcount := length_allKitties_eq hr
  have hbirths := length_acceptedBreeds_eq hr
  have hlen := length_mints_of_run (hr.mono fun _ _ _ hg => hg.noRegister)
  rw [Config.carried_of_quiescent _ hq, card_waiting] at hcount
  rw [Config.carried_of_quiescent _ hq, Multiset.card_zero] at hbirths
  omega

instance (h : History A ℤ X.shardOrder) (c : Config (State A ℤ X.shardOrder) (Relay A ℤ))
    (e : Event (Call A ℤ X.shardOrder) (Relay A ℤ) Unit Fault) :
    Decidable (BreedsAfterMints X h c e) :=
  match e with
  | .call (.mint _ _ _) _ => inferInstanceAs (Decidable (∀ k ∈ calls h, k.isBreed = false))
  | .call (.breed _ _ _ _) _ => inferInstanceAs (Decidable (∀ r ∈ c.inFlight, r.mintedId = none))
  | .call (.registerNewBorns _) _ => isFalse fun hg => hg
  | .deliver (.storeNewBorn _ _ _ _ _ _) _ => inferInstanceAs (Decidable (_ < _))
  | .call (.newBlock _) _ | .deliver (.storeMinted _ _ _ _) _ | .deliver (.breedMatron _ _ _ _ _) _
  | .deliver (.breedSire _ _ _ _ _ _) _ | .deliver (.collectNewBorns _) _
  | .deliver (.registerNewBorn _ _ _) _ => isTrue trivial

/-- Two breeds whose relays overtake each other. -/
theorem bred_after_mints_oneShard : ∃ h c,
    (kitty (oneShard .trap)).Run (BreedsAfterMints _) ⟨deployed (Fin 2) ℤ 0, 0⟩ h c ∧
    acceptedBreeds h = [⟨0, 0, 0, true⟩, ⟨1, 0, 1, true⟩] ∧
    ∑ shard, (c.state.newBorns shard).length = 2 ∧ BredFromMints (oneShard .trap) h c := by
  obtain ⟨⟨h, c⟩, hx, hmints, hq, hbreeds⟩ :
      ∃ r ∈ (kitty (oneShard .trap)).exec (BreedsAfterMints _) ⟨deployed (Fin 2) ℤ 0, 0⟩
        [.call (.mint 4 true 0), .call (.mint 9 false 0), .deliver (.storeMinted 0 9 false 1),
         .deliver (.storeMinted 0 4 true 0), .call (.breed 1 0 1 true), .call (.breed 0 0 0 true),
         .deliver (.breedMatron 0 0 0 0 true), .deliver (.breedMatron 0 1 1 0 true),
         .deliver (.breedSire 0 0 4 0 0 true), .deliver (.storeNewBorn 0 0 0 true 4 0),
         .deliver (.breedSire 0 1 4 1 0 true), .deliver (.storeNewBorn 1 1 0 true 6 0)],
        (mints r.1).length ≤ 2 ^ 31 ∧ r.2.inFlight = 0 ∧
        acceptedBreeds r.1 = [⟨0, 0, 0, true⟩, ⟨1, 0, 1, true⟩] := by
    decide
  obtain ⟨hsum, hbred⟩ := bred_after_mints _ (Machine.exec_run hx) hmints hq
  rw [hbreeds] at hsum
  exact ⟨h, c, Machine.exec_run hx, hbreeds, hsum, hbred⟩

/-! ### Too many mints -/

/-- What a mint has stored stays there, as long as nothing is registered. -/
theorem ne_none_of_mem_stored
    (hr : (kitty X).Run NoRegister ⟨deployed A ℤ X.shardOrder, 0⟩ h c) :
    ∀ p ∈ stored h, c.state.myKitties p.1 p.2 ≠ none := by
  have hput : ∀ (st : State A ℤ X.shardOrder) (self : A) (id : ℕ) (x : Kitty ℤ) (p : A × ℕ),
      st.myKitties p.1 p.2 ≠ none → (st.put self id x).myKitties p.1 p.2 ≠ none := by
    intro st self id x p hp
    by_cases heq : (p.1, p.2) = (self, id)
    · cases heq
      simp
    · rwa [State.put_myKitties_of_ne x st heq]
  refine invariant_of_run hr (I := fun h c => ∀ p ∈ stored h, c.state.myKitties p.1 p.2 ≠ none)
    (List.forall_mem_nil _) ?_ id ?_
  · intro h c k eff _ ih _ hk
    cases hk <;> exact ih
  · intro h st r rest eff hr ih _ hk p hp
    have hbr := ofBreeding_of_run hr r (Multiset.mem_cons_self r rest)
    rw [stored_cons, List.mem_append] at hp
    cases hk with
    | storeMinted self genes gender id =>
      rcases hp with hp | hp
      · cases List.mem_singleton.mp hp
        simp
      · exact hput st self id _ p (ih p hp)
    | breedMatron hs => exact hput st _ _ _ p (ih p (hp.resolve_left List.not_mem_nil))
    | breedSire hmix => exact ih p (hp.resolve_left List.not_mem_nil)
    | storeNewBorn hid hent =>
      cases hent
      exact hput st _ _ _ p (ih p (hp.resolve_left List.not_mem_nil))
    | collectNewBorns | registerNewBorn => exact hbr.elim

/-- A run of mints alone, each delivered at once. -/
theorem exists_run_of_mints (X : Chain A) (owner : A) (n : ℕ) : ∃ h c,
    (kitty X).Run (BreedsAfterMints X) ⟨deployed A ℤ X.shardOrder, 0⟩ h c ∧ c.inFlight = 0 ∧
      acceptedBreeds h = [] ∧ (mints h).length = n := by
  obtain ⟨h, c, hr, hq, hcalls⟩ := exists_eager_run X (bigint A X.shardOrder)
    (List.replicate n (.mint 1 true owner))
  have hmint : ∀ {h' : History A ℤ X.shardOrder}, calls h' <:+ calls h →
      ∀ k ∈ calls h', k = .mint 1 true owner :=
    fun hsuffix k hk => (List.mem_replicate.mp (hcalls ▸ hsuffix.subset hk)).2
  have hnone : ∀ h' : History A ℤ X.shardOrder, calls h' <:+ calls h →
      acceptedBreeds h' = [] := by
    refine fun h' hsuffix => List.eq_nil_iff_forall_not_mem.mpr fun b hb => ?_
    cases hmint hsuffix _ (mem_calls.mpr ⟨_, mem_acceptedBreeds.mp hb⟩)
  refine ⟨h, c, (hr.along List.suffix_rfl).mono_of_run fun {h' c' e c''} hr' hs hg => ?_, hq,
    hnone h List.suffix_rfl, ?_⟩
  · cases e with
    | call k r =>
      have hbefore : calls h' <:+ calls h := (List.suffix_cons k (calls h')).trans hg.2
      cases hmint hg.2 k List.mem_cons_self
      intro k' hk'
      cases hmint hbefore k' hk'
      rfl
    | deliver m r =>
      cases m with
      | storeNewBorn self s m gender newGenes birthTime =>
        have hmem : ⟨self, m, s, gender⟩ ∈ c'.carried Relay.breeds :=
          Config.mem_carried.mpr ⟨_, hs.mem_inFlight, Multiset.mem_singleton_self _⟩
        have hbreed : ⟨self, m, s, gender⟩ ∈ (acceptedBreeds h' : Multiset (Breed A)) := by
          rw [← acceptedBreeds_eq hr']
          exact Multiset.mem_add.mpr (.inl hmem)
        rw [hnone h' hg.2] at hbreed
        exact absurd hbreed (Multiset.notMem_zero _)
      | _ => trivial
  · rw [length_mints_eq hr, hcalls, List.countP_replicate]
    rfl

/-- After `2 ^ 31 + 1` mints, an address has a kitty under the key of a newborn, though nothing was
bred. -/
theorem bred_after_too_many_mints : ∃ h c,
    (kitty (oneShard .trap)).Run (BreedsAfterMints _) ⟨deployed (Fin 2) ℤ 0, 0⟩ h c ∧
      c.inFlight = 0 ∧ ¬ BredFromMints (oneShard .trap) h c := by
  obtain ⟨h, c, hr, hq, hnone, hlen⟩ := exists_run_of_mints (oneShard .trap) 0 (2 ^ 31 + 1)
  refine ⟨h, c, hr, hq, fun hbred => ?_⟩
  have hno := hr.mono fun _ _ _ hg => hg.noRegister
  have hlt : 2 ^ 31 < c.state.allKitties.length := by
    rw [length_mints_of_run hno, hlen]
    exact Nat.lt_succ_self _
  have hmem : (c.state.allKitties[2 ^ 31].owner, 2 ^ 31) ∈ idsFrom 0 c.state.allKitties :=
    mem_idsFrom_zero.mpr ⟨_, List.getElem?_eq_getElem hlt, rfl⟩
  rw [← owners_eq hr, Config.carried_of_quiescent _ hq, (allKitties_of_run hno).1, Multiset.coe_nil,
    add_zero, zero_add, Multiset.mem_coe] at hmem
  obtain ⟨y, hy⟩ := Option.ne_none_iff_exists'.mp (ne_none_of_mem_stored hno _ hmem)
  obtain ⟨b, hb, -⟩ := hbred.exists_of_kept le_rfl hy
  rw [hnone] at hb
  cases hb

end Runs

end KittyBreeding

end Preda

end RelayContracts
