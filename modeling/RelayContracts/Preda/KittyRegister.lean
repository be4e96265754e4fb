import Mathlib.Algebra.Order.BigOperators.Group.Finset
import RelayContracts.Preda.KittyTracking

/-!
# Registering the newborns

When nothing is in flight and no newborn waits on a shard, every accepted breed should have led to a
kitty of its own, with an id, an owner and the genes that were computed for it
(`RegistersAll`). It does, if no newborn is stored under a key that a registration under way has yet
to move (`KeyMoved`, `registers_all`).

It need not, otherwise. `registerNewBorns` clears the list of the shard at once, but the owner's
entry stays under its provisional key until two more relays have run. If the owner breeds in
between, the next newborn has the same position and overwrites the entry: of the two newborns
registered then, one is a copy of the second and the other is the default value
(`newborn_overwritten`).

## Main results

* `registers_all`
* `newborn_overwritten`
-/

namespace RelayContracts

namespace Preda

namespace KittyBreeding

open RelayMachine

variable {A : Type}

/-- **Registration loses and duplicates nothing**: each accepted breed has an id of its own, the ids
are those that `mint` has not given out, and the initiator of the breed is the owner and keeps the
newborn under the id. -/
def RegistersAll {k : ℕ} (h : History A ℤ k) (c : Config (State A ℤ k) (Relay A ℤ)) : Prop :=
  c.state.allKitties.length = (mints h).length + (acceptedBreeds h).length ∧
  ∃ (bs : List (Birth A ℤ)) (ids : List ℕ),
    bs.Perm (births h) ∧ bs.map Birth.toBreed = acceptedBreeds h ∧
    ids.Nodup ∧
    (∀ id, id ∈ ids ↔ id < c.state.allKitties.length ∧ id ∉ (stored h).map Prod.snd) ∧
    List.Forall₂ (fun b id =>
      (∃ n, c.state.allKitties[id]? = some n ∧ n.owner = b.initiator) ∧
      ∃ x, c.state.myKitties b.initiator id = some x ∧
        x.genes = b.genes ∧ x.matronId = b.m ∧ x.sireId = b.s) bs ids

/-- The guard that lets no newborn be stored under a key that a registration has yet to move. -/
def KeyMoved (X : Chain A) (_ : History A ℤ X.shardOrder)
    (c : Config (State A ℤ X.shardOrder) (Relay A ℤ)) :
    Event (Call A ℤ X.shardOrder) (Relay A ℤ) Unit Fault → Prop
  | .deliver (.storeNewBorn self _ _ _ _ _) _ =>
    (self, newBornKey (c.state.newBorns (X.shardOf self)).length) ∉ c.carried Relay.slots
  | _ => True

/-- Each newborn of a run that registers all is kept under some id. -/
theorem RegistersAll.exists_of_mem {k : ℕ} {h : History A ℤ k}
    {c : Config (State A ℤ k) (Relay A ℤ)} (hall : RegistersAll h c) {b : Birth A ℤ}
    (hb : b ∈ births h) : ∃ id < c.state.allKitties.length,
      (c.state.myKitties b.initiator id).map Kitty.lineage = some (b.genes, b.m, b.s) := by
  obtain ⟨-, bs, ids, hbs, -, -, hids, hmatch⟩ := hall
  obtain ⟨id, hid, -, x, hx, hgenes, hm, hs⟩ :=
    exists_of_forall₂_of_mem hmatch (hbs.mem_iff.mpr hb)
  refine ⟨id, ((hids id).mp hid).1, ?_⟩
  rw [hx, Option.map_some, Kitty.lineage, hgenes, hm, hs]

section Runs

variable [DecidableEq A] {X : Chain A}
  {G : History A ℤ X.shardOrder → Config (State A ℤ X.shardOrder) (Relay A ℤ) →
    Event (Call A ℤ X.shardOrder) (Relay A ℤ) Unit Fault → Prop}
  {h : History A ℤ X.shardOrder} {c : Config (State A ℤ X.shardOrder) (Relay A ℤ)}

instance (h : History A ℤ X.shardOrder) (c : Config (State A ℤ X.shardOrder) (Relay A ℤ))
    (e : Event (Call A ℤ X.shardOrder) (Relay A ℤ) Unit Fault) : Decidable (KeyMoved X h c e) :=
  match e with
  | .deliver (.storeNewBorn _ _ _ _ _ _) _ =>
    inferInstanceAs (Decidable (_ ∉ c.carried Relay.slots))
  | .call _ _ | .deliver (.storeMinted _ _ _ _) _ | .deliver (.breedMatron _ _ _ _ _) _
  | .deliver (.breedSire _ _ _ _ _ _) _ | .deliver (.collectNewBorns _) _
  | .deliver (.registerNewBorn _ _ _) _ => isTrue trivial

/-- With less than `2 ^ 31` kitties, the keys are the only thing to look at. -/
theorem keysFree_of_run (hr : (kitty X).Run (KeyMoved X) ⟨deployed A ℤ X.shardOrder, 0⟩ h c)
    (hfew : (mints h).length + (acceptedBreeds h).length < 2 ^ 31) :
    (kitty X).Run (KeysFree X) ⟨deployed A ℤ X.shardOrder, 0⟩ h c := by
  refine hr.within.mono_of_run fun {h' c' e c''} hr' hs hg => ?_
  have hsuffix : h' <:+ h := (List.suffix_cons e h').trans hg.2
  have hmints := length_mints_le hsuffix
  have haccepted : (acceptedBreeds h').length ≤ (acceptedBreeds h).length :=
    (hsuffix.sublist.filterMap accepted?).length_le
  have hbirths := length_acceptedBreeds_eq hr'
  have hcount := length_allKitties_eq hr'
  cases e with
  | call k r =>
    cases k with
    | mint genes gender owner =>
      show c'.state.allKitties.length < 2 ^ 31
      omega
    | _ => trivial
  | deliver m r =>
    cases m with
    | collectNewBorns ns =>
      obtain ⟨rest, hrest⟩ := Multiset.exists_cons_of_mem hs.mem_inFlight
      rw [Config.carried, hrest, Multiset.map_cons, Multiset.sum_cons, Relay.collecting] at hcount
      show c'.state.allKitties.length + ns.length ≤ 2 ^ 31
      omega
    | storeNewBorn self s m gender newGenes birthTime =>
      have hlen : (c'.state.newBorns (X.shardOf self)).length ≤
          ∑ shard, (c'.state.newBorns shard).length :=
        Finset.single_le_sum (f := fun shard => (c'.state.newBorns shard).length)
          (fun _ _ => Nat.zero_le _) (Finset.mem_univ _)
      rw [card_waiting] at hcount
      exact ⟨by omega, hg.1⟩
    | _ => trivial

/-- The ids that `mint` has not given out, once nothing is in flight. -/
theorem mem_registered_iff (hr : (kitty X).Run G ⟨deployed A ℤ X.shardOrder, 0⟩ h c)
    (hq : c.inFlight = 0) :
    ((registered h).map Prod.snd).Nodup ∧
      ∀ id, id ∈ (registered h).map Prod.snd ↔
        id < c.state.allKitties.length ∧ id ∉ (stored h).map Prod.snd := by
  have howners := owners_eq hr
  rw [Config.carried_of_quiescent _ hq, zero_add] at howners
  have hnodup := nodup_idsFrom c.state.allKitties
  rw [← howners, Multiset.map_add, Multiset.map_coe, Multiset.map_coe, Multiset.coe_add,
    Multiset.coe_nodup, List.nodup_append'] at hnodup
  refine ⟨hnodup.2.1, fun id => ⟨fun hid => ⟨?_, fun hid' => hnodup.2.2 hid' hid⟩, ?_⟩⟩
  · obtain ⟨⟨a, id⟩, hmem, rfl⟩ := List.mem_map.mp hid
    obtain ⟨n, hn, -⟩ := exists_of_mem_registered hr hmem
    exact (List.getElem?_eq_some_iff.mp hn).1
  · rintro ⟨hlt, hnot⟩
    have hmem : (c.state.allKitties[id].owner, id) ∈ idsFrom 0 c.state.allKitties :=
      mem_idsFrom_zero.mpr ⟨_, List.getElem?_eq_getElem hlt, rfl⟩
    rw [← howners, Multiset.mem_add] at hmem
    rcases hmem with hmem | hmem
    · exact absurd (List.mem_map_of_mem hmem) hnot
    · exact List.mem_map_of_mem (f := Prod.snd) hmem

/-- **Newborn registration.** In every run with less than `2 ^ 31` kitties in which no newborn is
stored under a key that a registration has yet to move, registration loses and duplicates
nothing. -/
theorem registers_all (X : Chain A) {h : History A ℤ X.shardOrder}
    {c : Config (State A ℤ X.shardOrder) (Relay A ℤ)}
    (hr : (kitty X).Run (KeyMoved X) ⟨deployed A ℤ X.shardOrder, 0⟩ h c)
    (hfew : (mints h).length + (acceptedBreeds h).length < 2 ^ 31) (hq : c.inFlight = 0)
    (hempty : ∀ shard, c.state.newBorns shard = []) : RegistersAll h c := by
  have ht := tracked_of_run (keysFree_of_run hr hfew)
  have hwaiting : waiting c.state.newBorns = 0 := by
    simp [waiting, hempty]
  have hplaces : places h c = registered h := by
    rw [places, hwaiting, Config.carried_of_quiescent _ hq, zero_add, zero_add]
  obtain ⟨bs, ps, hbs, hbreeds, hps, hmatch⟩ := ht.exists_matching hr hq
  rw [hplaces, Multiset.coe_eq_coe] at hps
  constructor
  · have hcount := length_allKitties_eq hr
    rw [Config.carried_of_quiescent _ hq, hwaiting, Multiset.card_zero] at hcount
    rw [← hbreeds, List.length_map, hbs.length_eq]
    omega
  · obtain ⟨hnodup, hids⟩ := mem_registered_iff hr hq
    refine ⟨bs, ps.map Prod.snd, hbs, hbreeds, (hps.map Prod.snd).nodup_iff.mpr hnodup,
      fun id => ?_, ?_⟩
    · rw [(hps.map Prod.snd).mem_iff]
      exact hids id
    · rw [List.forall₂_map_right_iff]
      refine hmatch.imp fun b p hbp => ?_
      obtain ⟨-, hp, hown, x, hx, hline⟩ := hbp
      rw [hplaces, Multiset.mem_coe] at hp
      rw [← hown]
      exact ⟨exists_of_mem_registered hr hp, x, hx, hline⟩

/-- One address mints two kitties, breeds them and registers the newborn. -/
theorem registers_all_oneShard : ∃ h c,
    (kitty (oneShard .trap)).Run (KeyMoved _) ⟨deployed (Fin 2) ℤ 0, 0⟩ h c ∧
    acceptedBreeds h = [⟨0, 0, 1, true⟩] ∧ RegistersAll h c := by
  obtain ⟨⟨h, c⟩, hx, hfew, hq, hempty, hbreeds⟩ :
      ∃ r ∈ (kitty (oneShard .trap)).exec (KeyMoved _) ⟨deployed (Fin 2) ℤ 0, 0⟩
        [.call (.mint 4 true 0), .deliver (.storeMinted 0 4 true 0),
         .call (.mint 9 false 0), .deliver (.storeMinted 0 9 false 1),
         .call (.breed 0 0 1 true), .deliver (.breedMatron 0 0 1 0 true),
         .deliver (.breedSire 0 0 4 1 0 true), .deliver (.storeNewBorn 0 1 0 true 6 0),
         .call (.registerNewBorns 0), .deliver (.collectNewBorns [⟨true, 0, 0⟩]),
         .deliver (.registerNewBorn 0 0 2)],
        (mints r.1).length + (acceptedBreeds r.1).length < 2 ^ 31 ∧ r.2.inFlight = 0 ∧
        (∀ shard, r.2.state.newBorns shard = []) ∧ acceptedBreeds r.1 = [⟨0, 0, 1, true⟩] := by
    decide
  exact ⟨h, c, Machine.exec_run hx, hbreeds, registers_all _ (Machine.exec_run hx) hfew hq hempty⟩

/-- The same address breeds a second time before the registration has moved the first newborn, which
is lost. -/
theorem newborn_overwritten : ∃ h c,
    (kitty (oneShard .trap)).Run Anything ⟨deployed (Fin 2) ℤ 0, 0⟩ h c ∧
    (mints h).length + (acceptedBreeds h).length < 2 ^ 31 ∧ c.inFlight = 0 ∧
    (∀ shard, c.state.newBorns shard = []) ∧ ¬ RegistersAll h c := by
  obtain ⟨⟨h, c⟩, hx, hfew, hq, hempty, hborn, hlost⟩ :
      ∃ r ∈ (kitty (oneShard .trap)).exec Anything ⟨deployed (Fin 2) ℤ 0, 0⟩
        [.call (.mint 4 true 0), .deliver (.storeMinted 0 4 true 0),
         .call (.mint 9 false 0), .deliver (.storeMinted 0 9 false 1),
         .call (.breed 0 0 1 true), .deliver (.breedMatron 0 0 1 0 true),
         .deliver (.breedSire 0 0 4 1 0 true), .deliver (.storeNewBorn 0 1 0 true 6 0),
         .call (.registerNewBorns 0),
         .call (.breed 0 0 0 true), .deliver (.breedMatron 0 0 0 0 true),
         .deliver (.breedSire 0 0 4 0 0 true), .deliver (.storeNewBorn 0 0 0 true 4 0),
         .deliver (.collectNewBorns [⟨true, 0, 0⟩]), .deliver (.registerNewBorn 0 0 2),
         .call (.registerNewBorns 0), .deliver (.collectNewBorns [⟨true, 0, 0⟩]),
         .deliver (.registerNewBorn 0 0 3)],
        (mints r.1).length + (acceptedBreeds r.1).length < 2 ^ 31 ∧ r.2.inFlight = 0 ∧
        (∀ shard, r.2.state.newBorns shard = []) ∧ ⟨⟨0, 0, 1, true⟩, 6⟩ ∈ births r.1 ∧
        ∀ id < r.2.state.allKitties.length,
          (r.2.state.myKitties 0 id).map Kitty.lineage ≠ some (6, 0, 1) := by
    decide
  refine ⟨h, c, Machine.exec_run hx, hfew, hq, hempty, fun hall => ?_⟩
  obtain ⟨id, hid, hkept⟩ := hall.exists_of_mem hborn
  exact hlost id hid hkept

end Runs

end KittyBreeding

end Preda

end RelayContracts
