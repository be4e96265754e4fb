import RelayContracts.Preda.KittyHistory

/-!
# Where the newborns are

A newborn is kept by its owner, first under the key of its position on the shard and, once it is
registered, under its id. The keys in use (`places`) can be read off the configuration and the
history: those waiting on the shards, those a registration in flight still has to move, and the ids
given to registered newborns.

As long as no newborn is stored under a key that is in use, each birth is at one of these places and
each place holds one birth (`Tracked`). The position on the shard is free, and so are the ids; what
may not be free is a key that a registration has yet to move, because `registerNewBorns` clears the
list of the shard before that. `KeysFree` is the guard that says it is free, and that the ids do not
reach the keys of the newborns.

## Main results

* `tracked_of_run` — the places of the newborns, along every run
* `Tracked.exists_matching` — the breeds and the places, one to one
-/

namespace RelayContracts

namespace Preda

namespace KittyBreeding

open RelayMachine

variable {A γ : Type} {k : ℕ}

/-- Lists with the same images, up to order, can be matched. -/
theorem exists_forall₂_of_map_perm {α β δ : Type} {f : α → δ} {g : β → δ} {as : List α}
    {bs : List β} (hperm : (as.map f).Perm (bs.map g)) :
    ∃ bs', bs'.Perm bs ∧ List.Forall₂ (fun a b => f a = g b) as bs' := by
  have hcomp : Relation.Comp (fun l l' => l = l'.map g) List.Perm (as.map f) bs := by
    rw [List.eq_map_comp_perm]
    exact hperm
  obtain ⟨bs', heq, hbs'⟩ := hcomp
  have hmaps : List.Forall₂ (fun x y => x = y) (as.map f) (bs'.map g) :=
    heq ▸ List.forall₂_refl _
  exact ⟨bs', hbs', List.forall₂_map_right_iff.mp (List.forall₂_map_left_iff.mp hmaps)⟩

theorem exists_of_forall₂_of_mem {α β : Type} {R : α → β → Prop} {as : List α} {bs : List β}
    (hmatch : List.Forall₂ R as bs) {a : α} (ha : a ∈ as) : ∃ b ∈ bs, R a b := by
  induction hmatch with
  | nil => cases ha
  | cons hab _ ih =>
    rcases List.mem_cons.mp ha with rfl | ha
    · exact ⟨_, List.mem_cons_self, hab⟩
    · obtain ⟨b, hb, hR⟩ := ih ha
      exact ⟨b, List.mem_cons_of_mem _ hb, hR⟩

/-- What breeding decides about a kitty: its genes, its matron and its sire. -/
def Kitty.lineage (x : Kitty γ) : γ × ℕ × ℕ := (x.genes, x.matronId, x.sireId)

/-- What an address keeps under a key. -/
def reading (st : State A γ k) (p : A × ℕ) : A × Option (γ × ℕ × ℕ) :=
  (p.1, (st.myKitties p.1 p.2).map Kitty.lineage)

/-- What the initiator of a breed is to keep. -/
def Birth.reading (b : Birth A γ) : A × Option (γ × ℕ × ℕ) :=
  (b.initiator, some (b.genes, b.m, b.s))

/-- The keys that newborns are kept under. -/
def places (h : History A γ k) (c : Config (State A γ k) (Relay A γ)) : Multiset (A × ℕ) :=
  waiting c.state.newBorns + c.carried Relay.slots + registered h

/-- The places and the births correspond. -/
structure Tracked (h : History A γ k) (c : Config (State A γ k) (Relay A γ)) : Prop where
  nodup : (places h c).Nodup
  births_eq : (births h : Multiset (Birth A γ)).map Birth.reading =
    (places h c).map (reading c.state)
  mem_of_ge : ∀ {a : A} {key : ℕ}, 2 ^ 31 ≤ key → c.state.myKitties a key ≠ none →
    (a, key) ∈ places h c

/-- Every place is taken. -/
theorem Tracked.exists_of_mem {h : History A γ k} {c : Config (State A γ k) (Relay A γ)}
    (ht : Tracked h c) {p : A × ℕ} (hp : p ∈ places h c) :
    ∃ x, c.state.myKitties p.1 p.2 = some x := by
  have hmem : reading c.state p ∈ (births h : Multiset (Birth A γ)).map Birth.reading := by
    rw [ht.births_eq]
    exact Multiset.mem_map_of_mem _ hp
  obtain ⟨b, -, hb⟩ := Multiset.mem_map.mp hmem
  have hsome : some (b.genes, b.m, b.s) = (c.state.myKitties p.1 p.2).map Kitty.lineage :=
    congrArg Prod.snd hb
  obtain ⟨x, hx, -⟩ := Option.map_eq_some_iff.mp hsome.symm
  exact ⟨x, hx⟩

/-- A step that touches no place keeps the correspondence. -/
theorem Tracked.frame {h h' : History A γ k} {c c' : Config (State A γ k) (Relay A γ)}
    (ht : Tracked h c) (hbirths : births h' = births h) (hplaces : places h' c' = places h c)
    (hread : ∀ p ∈ places h c, reading c'.state p = reading c.state p)
    (hnew : ∀ a key, 2 ^ 31 ≤ key → c'.state.myKitties a key ≠ none →
      c.state.myKitties a key ≠ none) : Tracked h' c' where
  nodup := hplaces ▸ ht.nodup
  births_eq := by
    rw [hbirths, hplaces, ht.births_eq]
    exact Multiset.map_congr rfl fun p hp => (hread p hp).symm
  mem_of_ge := fun hkey hne => hplaces ▸ ht.mem_of_ge hkey (hnew _ _ hkey hne)

/-- A step that stores a newborn in a place that was free. -/
theorem Tracked.add {h h' : History A γ k} {c c' : Config (State A γ k) (Relay A γ)}
    (ht : Tracked h c) {b : Birth A γ} {p : A × ℕ} (hbirths : births h' = b :: births h)
    (hplaces : places h' c' = p ::ₘ places h c) (hfree : p ∉ places h c)
    (hp : reading c'.state p = b.reading)
    (hread : ∀ q ∈ places h c, reading c'.state q = reading c.state q)
    (hnew : ∀ a key, 2 ^ 31 ≤ key → (a, key) ≠ p → c'.state.myKitties a key ≠ none →
      c.state.myKitties a key ≠ none) : Tracked h' c' where
  nodup := by
    rw [hplaces, Multiset.nodup_cons]
    exact ⟨hfree, ht.nodup⟩
  births_eq := by
    rw [hbirths, hplaces, ← Multiset.cons_coe, Multiset.map_cons, Multiset.map_cons, ht.births_eq,
      hp]
    congr 1
    exact Multiset.map_congr rfl fun q hq => (hread q hq).symm
  mem_of_ge := fun {a key} hkey hne => by
    rw [hplaces]
    by_cases heq : (a, key) = p
    · exact heq ▸ Multiset.mem_cons_self _ _
    · exact Multiset.mem_cons_of_mem (ht.mem_of_ge hkey (hnew a key hkey heq hne))

/-- A step that moves a newborn from one place to another. -/
theorem Tracked.move {h h' : History A γ k} {c c' : Config (State A γ k) (Relay A γ)}
    (ht : Tracked h c) {p q : A × ℕ} {others : Multiset (A × ℕ)} (hbirths : births h' = births h)
    (hbefore : places h c = p ::ₘ others) (hafter : places h' c' = q ::ₘ others)
    (hfree : q ∉ others) (hq : reading c'.state q = reading c.state p)
    (hread : ∀ o ∈ others, reading c'.state o = reading c.state o)
    (hnew : ∀ a key, 2 ^ 31 ≤ key → c'.state.myKitties a key ≠ none →
      (a, key) ≠ p ∧ c.state.myKitties a key ≠ none) : Tracked h' c' where
  nodup := by
    have hnodup := ht.nodup
    rw [hbefore, Multiset.nodup_cons] at hnodup
    rw [hafter, Multiset.nodup_cons]
    exact ⟨hfree, hnodup.2⟩
  births_eq := by
    rw [hbirths, ht.births_eq, hbefore, hafter, Multiset.map_cons, Multiset.map_cons, hq]
    congr 1
    exact Multiset.map_congr rfl fun o ho => (hread o ho).symm
  mem_of_ge := fun {a key} hkey hne => by
    obtain ⟨hp, hne⟩ := hnew a key hkey hne
    have hmem := ht.mem_of_ge hkey hne
    rw [hbefore] at hmem
    rw [hafter]
    exact Multiset.mem_cons_of_mem ((Multiset.mem_cons.mp hmem).resolve_left hp)

/-- A relay that hands on the keys it has to move. -/
theorem places_deliver (h : History A γ k) {st st' : State A γ k} {r : Relay A γ}
    {rest : Multiset (Relay A γ)} {rs : List (Relay A γ)}
    (hnew : st'.newBorns = st.newBorns) (hslots : (rs.map Relay.slots).sum = r.slots)
    (hreg : registered? (.deliver r (.ok ()) : Event (Call A γ k) _ Unit Fault) = none) :
    places (.deliver r (.ok ()) :: h) ⟨st', rest + rs⟩ = places h ⟨st, r ::ₘ rest⟩ := by
  rw [places, places, Config.carried_add, Config.carried_cons, registered_cons, hnew, hslots, hreg,
    Option.toList, List.nil_append]
  abel

/-- A call moves no newborn; a registration takes the keys of its shard along. -/
theorem places_call (h : History A γ k) {c : Config (State A γ k) (Relay A γ)} {call : Call A γ k}
    {eff : Effect (State A γ k) (Relay A γ) Unit} (hk : Called c.state call eff) :
    places (.call call (.ok eff.value) :: h) ⟨eff.state, c.inFlight + eff.relays⟩ =
      places h c := by
  rw [places, places, Config.carried_add, registered_cons]
  cases hk with
  | @register shard =>
    rw [← waiting_clear c.state.newBorns shard, Config.carried]
    simp only [Relay.slots, registered?, List.map_cons, List.map_nil, List.sum_cons, List.sum_nil,
      Option.toList, List.nil_append]
    abel
  | _ => simp [Relay.slots, registered?, Config.carried]

theorem ge_of_mem_waiting {newBorns : Fin (2 ^ k) → List (KittyInfo A)} {a : A} {key : ℕ}
    (hp : (a, key) ∈ waiting newBorns) : 2 ^ 31 ≤ key := by
  obtain ⟨shard, hp⟩ := mem_waiting.mp hp
  obtain ⟨i, n, -, -, rfl⟩ := mem_slots.mp hp
  exact newBornKey_ge i

theorem ge_of_mem_carried {c : Config (State A γ k) (Relay A γ)} {a : A} {key : ℕ}
    (hp : (a, key) ∈ c.carried Relay.slots) : 2 ^ 31 ≤ key := by
  obtain ⟨r, -, hp⟩ := Config.mem_carried.mp hp
  cases r with
  | collectNewBorns ns =>
    obtain ⟨i, n, -, -, rfl⟩ := mem_slots.mp (Multiset.mem_coe.mp hp)
    exact newBornKey_ge i
  | registerNewBorn self i id =>
    cases Multiset.mem_singleton.mp hp
    exact newBornKey_ge i
  | _ => exact absurd hp (Multiset.notMem_zero _)

/-- No newborn is stored under a key that a registration has yet to move, and neither the ids nor
the newborns of a shard are more than `2 ^ 31`. -/
def KeysFree (X : Chain A) (_ : History A γ X.shardOrder)
    (c : Config (State A γ X.shardOrder) (Relay A γ)) :
    Event (Call A γ X.shardOrder) (Relay A γ) Unit Fault → Prop
  | .call (.mint _ _ _) _ => c.state.allKitties.length < 2 ^ 31
  | .deliver (.collectNewBorns newBorns) _ =>
    c.state.allKitties.length + newBorns.length ≤ 2 ^ 31
  | .deliver (.storeNewBorn self _ _ _ _ _) _ =>
    (c.state.newBorns (X.shardOf self)).length < 2 ^ 31 ∧
      (self, newBornKey (c.state.newBorns (X.shardOf self)).length) ∉ c.carried Relay.slots
  | _ => True

section Runs

variable [DecidableEq A] {X : Chain A}
  {G : History A ℤ X.shardOrder → Config (State A ℤ X.shardOrder) (Relay A ℤ) →
    Event (Call A ℤ X.shardOrder) (Relay A ℤ) Unit Fault → Prop}
  {h : History A ℤ X.shardOrder} {c : Config (State A ℤ X.shardOrder) (Relay A ℤ)}

theorem length_allKitties_le (hr : (kitty X).Run (KeysFree X) ⟨deployed A ℤ X.shardOrder, 0⟩ h c) :
    c.state.allKitties.length ≤ 2 ^ 31 := by
  refine invariant_of_run hr (I := fun _ c => c.state.allKitties.length ≤ 2 ^ 31)
    (Nat.zero_le _) ?_ id ?_
  · intro h c k eff _ ih hg hk
    cases hk with
    | mint genes gender owner =>
      rw [List.length_append]
      exact hg
    | _ => exact ih
  · intro h st r rest eff _ ih hg hk
    cases hk with
    | collectNewBorns ns =>
      rw [List.length_append]
      exact hg
    | storeNewBorn hid hent =>
      cases hent
      exact ih
    | _ => exact ih

theorem length_newBorns_le_of_run
    (hr : (kitty X).Run (KeysFree X) ⟨deployed A ℤ X.shardOrder, 0⟩ h c) :
    ∀ shard, (c.state.newBorns shard).length ≤ 2 ^ 31 := by
  refine invariant_of_run hr (I := fun _ c => ∀ shard, (c.state.newBorns shard).length ≤ 2 ^ 31)
    (fun _ => Nat.zero_le _) ?_ id ?_
  · intro h c k eff _ ih _ hk shard
    cases hk with
    | @register t =>
      by_cases ht : shard = t
      · simp [ht]
      · simpa [ht] using ih shard
    | _ => exact ih shard
  · intro h st r rest eff _ ih hg hk shard
    cases hk with
    | @storeNewBorn self s m gender newGenes birthTime _ _ hid hent =>
      cases hent
      by_cases ht : shard = X.shardOf self
      · subst ht
        simp only [State.push, State.put_newBorns, Function.update_self, List.length_append,
          List.length_singleton]
        exact hg.1
      · simpa [State.push, ht] using ih shard
    | _ => exact ih shard

/-- An id on its way to its owner is an id of the owner, and nobody has it yet. -/
theorem fresh_of_gives {st : State A ℤ X.shardOrder} {r : Relay A ℤ} {rest : Multiset (Relay A ℤ)}
    {self : A} {id : ℕ} (hr : (kitty X).Run G ⟨deployed A ℤ X.shardOrder, 0⟩ h ⟨st, r ::ₘ rest⟩)
    (hgives : r.gives = {(self, id)}) :
    (∃ n, st.allKitties[id]? = some n ∧ n.owner = self) ∧ (self, id) ∉ registered h := by
  have heq := owners_eq hr
  rw [Config.carried_cons, hgives, add_assoc] at heq
  constructor
  · rw [← mem_idsFrom_zero, ← heq]
    exact Multiset.mem_add.mpr (.inl (Multiset.mem_singleton_self _))
  · have hnodup := (nodup_idsFrom st.allKitties).of_map
    rw [← heq, Multiset.singleton_add, Multiset.nodup_cons] at hnodup
    intro hmem
    exact hnodup.1 (Multiset.mem_add.mpr (.inr (Multiset.mem_add.mpr (.inr hmem))))

/-- A registered newborn is kept under an id. -/
theorem exists_of_mem_registered (hr : (kitty X).Run G ⟨deployed A ℤ X.shardOrder, 0⟩ h c)
    {self : A} {id : ℕ} (hmem : (self, id) ∈ registered h) :
    ∃ n, c.state.allKitties[id]? = some n ∧ n.owner = self := by
  rw [← mem_idsFrom_zero, ← owners_eq hr]
  exact Multiset.mem_add.mpr (.inr (Multiset.mem_add.mpr (.inr hmem)))

/-- The key of the next newborn of a shard is not waiting there. -/
theorem notMem_waiting (hr : (kitty X).Run G ⟨deployed A ℤ X.shardOrder, 0⟩ h c) {self : A}
    (hlen : (c.state.newBorns (X.shardOf self)).length < 2 ^ 31) :
    (self, newBornKey (c.state.newBorns (X.shardOf self)).length) ∉ waiting c.state.newBorns := by
  intro hmem
  obtain ⟨shard, hmem⟩ := mem_waiting.mp hmem
  obtain ⟨i, n, hn, rfl, hkey⟩ := mem_slots.mp hmem
  obtain ⟨hi, -⟩ := List.getElem?_eq_some_iff.mp hn
  obtain rfl := shardOf_of_mem_newBorns hr (List.mem_of_getElem? hn)
  rw [newBornKey_of_lt hlen, newBornKey_of_lt (hi.trans hlen)] at hkey
  omega

/-- Newborns that wait on one shard have different keys. -/
theorem eq_of_mem_waiting (hr : (kitty X).Run (KeysFree X) ⟨deployed A ℤ X.shardOrder, 0⟩ h c)
    {p q : A × ℕ} (hp : p ∈ waiting c.state.newBorns) (hq : q ∈ waiting c.state.newBorns)
    (hshard : X.shardOf p.1 = X.shardOf q.1) (hkey : p.2 = q.2) : p = q := by
  obtain ⟨a, _⟩ := p
  obtain ⟨b, _⟩ := q
  obtain ⟨t, hp⟩ := mem_waiting.mp hp
  obtain ⟨u, hq⟩ := mem_waiting.mp hq
  obtain ⟨i, n, hn, rfl, rfl⟩ := mem_slots.mp hp
  obtain ⟨j, n', hn', rfl, rfl⟩ := mem_slots.mp hq
  obtain rfl := shardOf_of_mem_newBorns hr (List.mem_of_getElem? hn)
  obtain rfl := shardOf_of_mem_newBorns hr (List.mem_of_getElem? hn')
  have hi := (List.getElem?_eq_some_iff.mp hn).1.trans_le (length_newBorns_le_of_run hr _)
  have hj := (List.getElem?_eq_some_iff.mp hn').1.trans_le (length_newBorns_le_of_run hr _)
  have hij : i = j := by
    have hkey : newBornKey i = newBornKey j := hkey
    rw [newBornKey_of_lt hi, newBornKey_of_lt hj] at hkey
    omega
  subst hij
  rw [hshard] at hn
  cases hn.symm.trans hn'
  rfl

/-! ### One step -/

variable {st : State A ℤ X.shardOrder} {rest : Multiset (Relay A ℤ)} {self : A}

theorem reading_put_of_ne {p : A × ℕ} {id : ℕ} (x : Kitty ℤ) (hne : p ≠ (self, id)) :
    reading (st.put self id x) p = reading st p := by
  rw [reading, reading, State.put_myKitties_of_ne x st hne]

/-- An id on its way to its owner is not the place of a newborn. -/
theorem notMem_places_of_gives {r : Relay A ℤ} {id : ℕ}
    (hr : (kitty X).Run (KeysFree X) ⟨deployed A ℤ X.shardOrder, 0⟩ h ⟨st, r ::ₘ rest⟩)
    (hgives : r.gives = {(self, id)}) : id < 2 ^ 31 ∧ (self, id) ∉ places h ⟨st, r ::ₘ rest⟩ := by
  obtain ⟨⟨n, hn, -⟩, hfresh⟩ := fresh_of_gives hr hgives
  have hid : id < 2 ^ 31 := (List.getElem?_eq_some_iff.mp hn).1.trans_le (length_allKitties_le hr)
  refine ⟨hid, ?_⟩
  rw [places, Multiset.mem_add, Multiset.mem_add]
  rintro ((hmem | hmem) | hmem)
  · exact absurd (ge_of_mem_waiting hmem) (not_le.mpr hid)
  · exact absurd (ge_of_mem_carried hmem) (not_le.mpr hid)
  · exact hfresh hmem

/-- The key of the next newborn is free. -/
theorem notMem_places_of_keysFree {s m : ℕ} {gender : Bool} {newGenes : ℤ} {birthTime : ℕ}
    (hr : (kitty X).Run (KeysFree X) ⟨deployed A ℤ X.shardOrder, 0⟩ h c)
    (hg : KeysFree X h c (.deliver (.storeNewBorn self s m gender newGenes birthTime) (.ok ()))) :
    (self, newBornKey (c.state.newBorns (X.shardOf self)).length) ∉ places h c := by
  rw [places, Multiset.mem_add, Multiset.mem_add]
  rintro ((hmem | hmem) | hmem)
  · exact notMem_waiting hr hg.1 hmem
  · exact hg.2 hmem
  · obtain ⟨n, hn, -⟩ := exists_of_mem_registered hr hmem
    have hlt := (List.getElem?_eq_some_iff.mp hn).1.trans_le (length_allKitties_le hr)
    exact absurd (newBornKey_ge _) (not_le.mpr hlt)

/-- A minted kitty is stored under an id that no newborn has. -/
theorem Tracked.storeMinted {genes : ℤ} {gender : Bool} {id : ℕ}
    (hr : (kitty X).Run (KeysFree X) ⟨deployed A ℤ X.shardOrder, 0⟩ h
      ⟨st, .storeMinted self genes gender id ::ₘ rest⟩)
    (ht : Tracked h ⟨st, .storeMinted self genes gender id ::ₘ rest⟩) (x : Kitty ℤ) :
    Tracked (.deliver (.storeMinted self genes gender id) (.ok ()) :: h)
      ⟨st.put self id x, rest + ([] : List (Relay A ℤ))⟩ := by
  obtain ⟨hid, hfree⟩ := notMem_places_of_gives hr rfl
  refine ht.frame rfl (places_deliver h rfl rfl rfl) (fun p hp => ?_) fun a key hkey hne => ?_
  · exact reading_put_of_ne x fun heq => hfree (heq ▸ hp)
  · have hneq : (a, key) ≠ (self, id) := fun heq => by cases heq; omega
    rwa [State.put_myKitties_of_ne x st hneq] at hne

/-- The matron's entry changes, but not what breeding decided about it. -/
theorem Tracked.breedMatron {initiator : A} {s m : ℕ} {gender : Bool}
    (hr : (kitty X).Run (KeysFree X) ⟨deployed A ℤ X.shardOrder, 0⟩ h
      ⟨st, .breedMatron self initiator s m gender ::ₘ rest⟩)
    (ht : Tracked h ⟨st, .breedMatron self initiator s m gender ::ₘ rest⟩) (dest : A) :
    Tracked (.deliver (.breedMatron self initiator s m gender) (.ok ()) :: h)
      ⟨st.put self m { st.read self m with lastBreed := st.height },
        rest + ([.breedSire dest initiator (st.read self m).genes s m gender] :
          List (Relay A ℤ))⟩ := by
  have hm : m < 2 ^ 31 :=
    (parentsBelow_of_run hr _ (Multiset.mem_cons_self _ rest)).2.trans_le (length_allKitties_le hr)
  refine ht.frame rfl (places_deliver h rfl rfl rfl) (fun p hp => ?_) fun a key hkey hne => ?_
  · by_cases hpm : p = (self, m)
    · subst hpm
      obtain ⟨x, hx⟩ := ht.exists_of_mem hp
      have hx : st.myKitties self m = some x := hx
      simp [reading, State.read, hx, Kitty.lineage]
    · exact reading_put_of_ne _ hpm
  · have hneq : (a, key) ≠ (self, m) := fun heq => by cases heq; omega
    rwa [State.put_myKitties_of_ne _ st hneq] at hne

/-- A newborn adds its key. -/
theorem places_storeNewBorn (h : History A ℤ X.shardOrder) (st : State A ℤ X.shardOrder)
    (rest : Multiset (Relay A ℤ)) (self : A) (s m : ℕ) (gender : Bool) (newGenes : ℤ)
    (birthTime : ℕ) (x : Kitty ℤ) :
    places (.deliver (.storeNewBorn self s m gender newGenes birthTime) (.ok ()) :: h)
        ⟨(st.put self (newBornKey (st.newBorns (X.shardOf self)).length) x).push (X.shardOf self)
          ⟨gender, birthTime, self⟩, rest + ([] : List (Relay A ℤ))⟩ =
      (self, newBornKey (st.newBorns (X.shardOf self)).length) ::ₘ
        places h ⟨st, .storeNewBorn self s m gender newGenes birthTime ::ₘ rest⟩ := by
  set key := newBornKey (st.newBorns (X.shardOf self)).length
  set st' := (st.put self key x).push (X.shardOf self) ⟨gender, birthTime, self⟩
  have hpush : waiting st'.newBorns = waiting st.newBorns + {(self, key)} :=
    waiting_push st.newBorns (X.shardOf self) _
  rw [places, places, Config.carried_add, Config.carried_cons, registered_cons, hpush,
    ← Multiset.singleton_add (self, key)]
  simp only [Relay.slots, registered?, List.map_nil, List.sum_nil, Option.toList, List.nil_append]
  abel

omit [DecidableEq A] in
/-- A registered newborn leaves its key. -/
theorem places_registerNewBorn_before (h : History A ℤ X.shardOrder) (st : State A ℤ X.shardOrder)
    (rest : Multiset (Relay A ℤ)) (self : A) (i id : ℕ) :
    places h ⟨st, .registerNewBorn self i id ::ₘ rest⟩ =
      (self, newBornKey i) ::ₘ places h ⟨st, rest⟩ := by
  rw [places, places, Config.carried_cons, ← Multiset.singleton_add (self, newBornKey i)]
  simp only [Relay.slots, Config.carried]
  abel

/-- It is then at its id. -/
theorem places_registerNewBorn_after (h : History A ℤ X.shardOrder) (st : State A ℤ X.shardOrder)
    (rest : Multiset (Relay A ℤ)) (self : A) (i id : ℕ) (x : Kitty ℤ) :
    places (.deliver (.registerNewBorn self i id) (.ok ()) :: h)
        ⟨(st.put self id x).erase self (newBornKey i), rest + ([] : List (Relay A ℤ))⟩ =
      (self, id) ::ₘ places h ⟨st, rest⟩ := by
  rw [places, places, Config.carried_add, registered_cons, ← Multiset.singleton_add (self, id),
    ← Multiset.coe_add]
  simp only [registered?, List.map_nil, List.sum_nil, Option.toList, Multiset.coe_singleton,
    State.erase_newBorns, State.put_newBorns, Config.carried]
  abel

/-- A newborn takes a place that was free. -/
theorem Tracked.storeNewBorn {s m : ℕ} {gender : Bool} {newGenes : ℤ} {birthTime idNb : ℕ}
    {r : Relay A ℤ} (hrel : r = .storeNewBorn self s m gender newGenes birthTime)
    (hr : (kitty X).Run (KeysFree X) ⟨deployed A ℤ X.shardOrder, 0⟩ h ⟨st, r ::ₘ rest⟩)
    (ht : Tracked h ⟨st, r ::ₘ rest⟩)
    (hg : KeysFree X h ⟨st, r ::ₘ rest⟩ (.deliver r (.ok ())))
    (hid : idNb = newBornKey (st.newBorns (X.shardOf self)).length) :
    Tracked (.deliver r (.ok ()) :: h)
      ⟨(st.put self idNb ⟨idNb, newGenes, m, s, birthTime⟩).push (X.shardOf self)
        ⟨gender, birthTime, self⟩, rest + ([] : List (Relay A ℤ))⟩ := by
  subst hrel hid
  set key := newBornKey (st.newBorns (X.shardOf self)).length
  set r : Relay A ℤ := .storeNewBorn self s m gender newGenes birthTime
  set st' := (st.put self key ⟨key, newGenes, m, s, birthTime⟩).push (X.shardOf self)
    ⟨gender, birthTime, self⟩
  have hfree : (self, key) ∉ places h ⟨st, r ::ₘ rest⟩ := notMem_places_of_keysFree hr hg
  have hplaces : places (.deliver r (.ok ()) :: h) ⟨st', rest + ([] : List (Relay A ℤ))⟩ =
      (self, key) ::ₘ places h ⟨st, r ::ₘ rest⟩ :=
    places_storeNewBorn h st rest self s m gender newGenes birthTime _
  refine ht.add (b := ⟨⟨self, m, s, gender⟩, newGenes⟩) rfl hplaces hfree ?_ ?_ ?_
  · simp [Birth.reading, reading, st', State.push, Kitty.lineage]
  · exact fun p hp => reading_put_of_ne _ fun heq => hfree (heq ▸ hp)
  · intro a i _ heq hne
    have hne : (st.put self key _).myKitties a i ≠ none := hne
    rwa [State.put_myKitties_of_ne _ st heq] at hne

/-- A newborn is moved from its key to its id. -/
theorem Tracked.registerNewBorn {i id : ℕ} {r : Relay A ℤ}
    (hrel : r = .registerNewBorn self i id)
    (hr : (kitty X).Run (KeysFree X) ⟨deployed A ℤ X.shardOrder, 0⟩ h ⟨st, r ::ₘ rest⟩)
    (ht : Tracked h ⟨st, r ::ₘ rest⟩) :
    Tracked (.deliver r (.ok ()) :: h)
      ⟨(st.put self id (st.read self (newBornKey i))).erase self (newBornKey i),
        rest + ([] : List (Relay A ℤ))⟩ := by
  subst hrel
  set r : Relay A ℤ := .registerNewBorn self i id
  set st' := (st.put self id (st.read self (newBornKey i))).erase self (newBornKey i)
  obtain ⟨hid, hfree⟩ := notMem_places_of_gives hr rfl
  have hbefore : places h ⟨st, r ::ₘ rest⟩ = (self, newBornKey i) ::ₘ places h ⟨st, rest⟩ :=
    places_registerNewBorn_before h st rest self i id
  have hafter : places (.deliver r (.ok ()) :: h) ⟨st', rest + ([] : List (Relay A ℤ))⟩ =
      (self, id) ::ₘ places h ⟨st, rest⟩ :=
    places_registerNewBorn_after h st rest self i id _
  have hnodup := ht.nodup
  rw [hbefore, Multiset.nodup_cons] at hnodup
  rw [hbefore, Multiset.mem_cons, not_or] at hfree
  have hkeep : ∀ p, p ≠ (self, newBornKey i) → p ≠ (self, id) →
      st'.myKitties p.1 p.2 = st.myKitties p.1 p.2 := fun p h₁ h₂ => by
    rw [State.erase_myKitties_of_ne _ h₁, State.put_myKitties_of_ne _ _ h₂]
  refine ht.move rfl hbefore hafter hfree.2 ?_ (fun p hp => ?_) fun a key hge hne => ?_
  · obtain ⟨x, hx⟩ := ht.exists_of_mem (hbefore ▸ Multiset.mem_cons_self _ _)
    have hx : st.myKitties self (newBornKey i) = some x := hx
    have hmoved : st'.myKitties self id = some x := by
      rw [State.erase_myKitties_of_ne _ hfree.1, State.put_myKitties_self, State.read, hx]
      rfl
    simp only [reading, hx, hmoved]
  · have h₁ : p ≠ (self, newBornKey i) := fun heq => hnodup.1 (heq ▸ hp)
    have h₂ : p ≠ (self, id) := fun heq => hfree.2 (heq ▸ hp)
    rw [reading, reading, hkeep p h₁ h₂]
  · have h₁ : (a, key) ≠ (self, newBornKey i) := by
      rintro heq
      cases heq
      exact hne (State.erase_myKitties_self ..)
    have h₂ : (a, key) ≠ (self, id) := fun heq => by cases heq; omega
    have hne : st'.myKitties a key ≠ none := hne
    rw [hkeep (a, key) h₁ h₂] at hne
    exact ⟨h₁, hne⟩

/-- **The newborns are where they should be**, along every run in which no key in use is given to a
newborn. -/
theorem tracked_of_run (hr : (kitty X).Run (KeysFree X) ⟨deployed A ℤ X.shardOrder, 0⟩ h c) :
    Tracked h c := by
  refine invariant_of_run hr (I := Tracked) ?_ ?_ (fun ht => ht.frame rfl rfl (fun _ _ => rfl)
    fun _ _ _ hne => hne) ?_
  · have hplaces : places [] ⟨deployed A ℤ X.shardOrder, 0⟩ = 0 := by
      simp [places, waiting, deployed, registered]
    refine ⟨?_, ?_, fun _ hne => absurd rfl hne⟩
    · rw [hplaces]
      exact Multiset.nodup_zero
    · rw [hplaces]
      rfl
  · intro h c k eff _ ht _ hk
    have hplaces := places_call h hk
    cases hk <;> exact ht.frame rfl hplaces (fun _ _ => rfl) fun _ _ _ hne => hne
  · intro h st r rest eff hr ht hg hk
    cases hk with
    | storeMinted self genes gender id => exact ht.storeMinted hr _
    | breedMatron hs => exact ht.breedMatron hr _
    | breedSire hmix =>
      exact ht.frame rfl (places_deliver h rfl rfl rfl) (fun _ _ => rfl) fun _ _ _ hne => hne
    | storeNewBorn hid hent =>
      cases hent
      exact ht.storeNewBorn rfl hr hg hid
    | collectNewBorns ns =>
      exact ht.frame rfl (places_deliver h rfl (sum_slots_registrations 0 _ ns) rfl)
        (fun _ _ => rfl) fun _ _ _ hne => hne
    | registerNewBorn self i id => exact ht.registerNewBorn rfl hr

/-- **Breeds and places, once nothing is in flight.** The births can be listed in the order of the
accepted breeds, and the places in the order of the births. -/
theorem Tracked.exists_matching (ht : Tracked h c)
    (hr : (kitty X).Run G ⟨deployed A ℤ X.shardOrder, 0⟩ h c) (hq : c.inFlight = 0) :
    ∃ (bs : List (Birth A ℤ)) (ps : List (A × ℕ)), bs.Perm (births h) ∧
      bs.map Birth.toBreed = acceptedBreeds h ∧ (ps : Multiset (A × ℕ)) = places h c ∧
      List.Forall₂ (fun b p => b ∈ births h ∧ p ∈ places h c ∧ p.1 = b.initiator ∧
        ∃ x, c.state.myKitties p.1 p.2 = some x ∧
          x.genes = b.genes ∧ x.matronId = b.m ∧ x.sireId = b.s) bs ps := by
  have haccepted := acceptedBreeds_eq hr
  rw [Config.carried_of_quiescent _ hq, zero_add, Multiset.coe_eq_coe] at haccepted
  have hperm : ((acceptedBreeds h).map id).Perm ((births h).map Birth.toBreed) := by
    rw [List.map_id]
    exact haccepted.symm
  obtain ⟨bs, hbs, hbreeds⟩ := exists_forall₂_of_map_perm hperm
  obtain ⟨qs, hqs⟩ : ∃ qs : List (A × ℕ), (qs : Multiset (A × ℕ)) = places h c :=
    Quot.exists_rep _
  have hbirths := ht.births_eq
  rw [← hqs, Multiset.map_coe, Multiset.map_coe, Multiset.coe_eq_coe] at hbirths
  obtain ⟨ps, hps, hmatch⟩ := exists_forall₂_of_map_perm ((hbs.map _).trans hbirths)
  have hplaces : (ps : Multiset (A × ℕ)) = places h c := (Multiset.coe_eq_coe.mpr hps).trans hqs
  refine ⟨bs, ps, hbs, ?_, hplaces, ?_⟩
  · rw [← List.forall₂_eq_eq_eq, List.forall₂_map_left_iff]
    exact hbreeds.flip.imp fun b a hba => hba.symm
  · refine List.forall₂_iff_zip.mpr ⟨hmatch.length_eq, fun {b p} hbp => ?_⟩
    have hread : b.reading = reading c.state p := (List.forall₂_iff_zip.mp hmatch).2 hbp
    have hp : p ∈ (ps : Multiset (A × ℕ)) := (List.of_mem_zip hbp).2
    have hkept : some (b.genes, b.m, b.s) = (c.state.myKitties p.1 p.2).map Kitty.lineage :=
      congrArg Prod.snd hread
    obtain ⟨x, hx, hline⟩ := Option.map_eq_some_iff.mp hkept.symm
    refine ⟨hbs.subset (List.of_mem_zip hbp).1, hplaces ▸ hp, (congrArg Prod.fst hread).symm, x, hx,
      ?_⟩
    simpa [Kitty.lineage] using hline

end Runs

end KittyBreeding

end Preda

end RelayContracts
