import RelayContracts.Preda.KittyGenes
import RelayContracts.Preda.KittyRegister

/-!
# Keys and ids

A kitty is kept under a key of `myKitties` and carries its id, and the two should be the same when
no relay is in flight. `mint` and the last relay of `breed` see to it. The owner's relay of
`registerNewBorns` does not: it copies the entry from the provisional key to the id of the newborn,
erases the provisional key, and leaves the provisional key in the entry as its id.

So the keys and ids agree in every run in which the relays of a call are delivered before the next
call, as long as no registration finds a newborn (`Unregistered`, `agreed_of_run`). With less than
`2 ^ 31` kitties they agree in no other such run, since an entry never loses its wrong id
(`provisional_of_mem_places`), but the provisional keys that a registration has found are gone
afterwards in all of them (`cleared_of_run`).

## Main results

* `keys_agree`
* `registered_id_kept`
-/

namespace RelayContracts

namespace Preda

namespace KittyBreeding

open RelayMachine

variable {A γ : Type} {k : ℕ}

/-- The id of each kitty is the key it is kept under. -/
def IdsAgree (st : State A γ k) : Prop :=
  ∀ a key x, st.myKitties a key = some x → x.id = key

/-- The guard that lets a call be made only with nothing in flight, and a registration only on a
shard without newborns. -/
def Unregistered (h : History A γ k) (c : Config (State A γ k) (Relay A γ))
    (e : Event (Call A γ k) (Relay A γ) Unit Fault) : Prop :=
  Eager h c e ∧
    match e with
    | .call (.registerNewBorns shard) _ => c.state.newBorns shard = []
    | _ => True

instance [DecidableEq A] [DecidableEq γ] (h : History A γ k) (c : Config (State A γ k) (Relay A γ))
    (e : Event (Call A γ k) (Relay A γ) Unit Fault) : Decidable (Unregistered h c e) :=
  match e with
  | .call (.registerNewBorns shard) _ =>
    inferInstanceAs (Decidable (c.inFlight = 0 ∧ c.state.newBorns shard = []))
  | .call (.mint _ _ _) _ | .call (.breed _ _ _ _) _ | .call (.newBlock _) _ =>
    inferInstanceAs (Decidable (c.inFlight = 0 ∧ True))
  | .deliver _ _ => isTrue ⟨trivial, trivial⟩

section Contract

variable [DecidableEq A]

/-- If the last call was a registration, the provisional keys of the newborns it found are gone. -/
def Cleared (X : Chain A) (h : History A ℤ X.shardOrder)
    (c : Config (State A ℤ X.shardOrder) (Relay A ℤ)) : Prop :=
  ∀ ds shard v h₁ c₁, h = ds ++ .call (.registerNewBorns shard) v :: h₁ → calls ds = [] →
    (kitty X).Run Eager ⟨deployed A ℤ X.shardOrder, 0⟩ h₁ c₁ →
    ∀ i n, (c₁.state.newBorns shard)[i]? = some n → c.state.myKitties n.owner (newBornKey i) = none

/-- **Keys and ids agree**, and no provisional key that was registered last is left. -/
structure KeysAgree (X : Chain A) (h : History A ℤ X.shardOrder)
    (c : Config (State A ℤ X.shardOrder) (Relay A ℤ)) : Prop where
  ids : IdsAgree c.state
  cleared : Cleared X h c

/-! ### Writing an entry -/

variable {self : A} {key : ℕ} {x : Kitty γ} {st : State A γ k}

theorem IdsAgree.put (hids : IdsAgree st) (hx : x.id = key) : IdsAgree (st.put self key x) := by
  intro a i y hy
  by_cases heq : (a, i) = (self, key)
  · cases heq
    rw [State.put_myKitties_self] at hy
    cases hy
    exact hx
  · rw [State.put_myKitties_of_ne _ _ heq] at hy
    exact hids a i y hy

theorem put_myKitties_ne_none {p : A × ℕ} (hp : p = (self, key) ∨ st.myKitties p.1 p.2 ≠ none) :
    (st.put self key x).myKitties p.1 p.2 ≠ none := by
  by_cases heq : p = (self, key)
  · subst heq
    rw [State.put_myKitties_self]
    exact Option.some_ne_none x
  · rw [State.put_myKitties_of_ne _ _ heq]
    exact hp.resolve_left heq

end Contract

/-! ### Relays of one call -/

theorem Relay.slots_of_ofBreeding {r : Relay A γ} (hr : r.OfBreeding) : r.slots = 0 := by
  cases r with
  | collectNewBorns | registerNewBorn => exact hr.elim
  | _ => rfl

section Runs

variable [DecidableEq A] {X : Chain A} {h : History A ℤ X.shardOrder}
  {c : Config (State A ℤ X.shardOrder) (Relay A ℤ)}

/-- A relay emits relays of its own kind. -/
theorem ofBreeding_of_emitted {st : State A ℤ X.shardOrder} {r r' : Relay A ℤ}
    {eff : Effect (State A ℤ X.shardOrder) (Relay A ℤ) Unit}
    (hk : Delivered X (bigint A X.shardOrder) st r eff) (hr' : r' ∈ eff.relays) :
    r'.OfBreeding ↔ r.OfBreeding := by
  cases hk with
  | storeMinted | storeNewBorn | registerNewBorn => exact absurd hr' List.not_mem_nil
  | breedMatron | breedSire =>
    cases List.mem_singleton.mp hr'
    exact Iff.rfl
  | collectNewBorns ns =>
    obtain ⟨self, j, id, rfl⟩ := exists_of_mem_registrations hr'
    exact Iff.rfl

/-- In an eager run the relays in flight are of one kind. -/
theorem ofBreeding_or_of_run (hr : (kitty X).Run Eager ⟨deployed A ℤ X.shardOrder, 0⟩ h c) :
    (∀ r ∈ c.inFlight, r.OfBreeding) ∨ ∀ r ∈ c.inFlight, ¬ r.OfBreeding := by
  refine invariant_of_run hr (I := fun _ c => (∀ r ∈ c.inFlight, r.OfBreeding) ∨
    ∀ r ∈ c.inFlight, ¬ r.OfBreeding) (.inl fun r hr => absurd hr (Multiset.notMem_zero r)) ?_ id ?_
  · intro h c k eff _ _ hq hk
    have hq : c.inFlight = 0 := hq
    rw [hq, zero_add]
    cases hk with
    | register => exact .inr (by simp [Relay.OfBreeding])
    | _ => exact .inl (by simp [Relay.OfBreeding])
  · intro h st r rest eff _ ih _ hk
    refine ih.imp (fun hall => ?_) fun hall => ?_
    all_goals
      have hr := hall r (Multiset.mem_cons_self r rest)
      refine forall_mem_add_coe.mpr ⟨fun r' hr' => hall r' (Multiset.mem_cons_of_mem hr'), ?_⟩
      intro r' hr'
      rwa [ofBreeding_of_emitted hk hr']

/-- In an eager run a registration has moved all its keys when the next newborn is stored. -/
theorem keyMoved_of_eager (hr : (kitty X).Run Eager ⟨deployed A ℤ X.shardOrder, 0⟩ h c) :
    (kitty X).Run (KeyMoved X) ⟨deployed A ℤ X.shardOrder, 0⟩ h c := by
  refine hr.mono_of_run fun {h c e c'} hr hs _ => ?_
  cases e with
  | call => trivial
  | deliver r v =>
    cases r with
    | storeNewBorn self s m gender newGenes birthTime =>
      have hall : ∀ r ∈ c.inFlight, r.OfBreeding :=
        (ofBreeding_or_of_run hr).resolve_right fun hnone => hnone _ hs.mem_inFlight trivial
      intro hmem
      obtain ⟨r, hr, hp⟩ := Config.mem_carried.mp hmem
      rw [Relay.slots_of_ofBreeding (hall r hr)] at hp
      exact Multiset.notMem_zero _ hp
    | _ => trivial

/-- Until the next call, a shard that was registered has no newborns. -/
theorem newBorns_of_registered {ds h₁ : History A ℤ X.shardOrder} {shard : Fin (2 ^ X.shardOrder)}
    {v : Except Fault Unit}
    (hr : (kitty X).Run Eager ⟨deployed A ℤ X.shardOrder, 0⟩
      (ds ++ .call (.registerNewBorns shard) v :: h₁) c) (hds : calls ds = []) :
    c.state.newBorns shard = [] ∧ ∀ r ∈ c.inFlight, ¬ r.OfBreeding := by
  induction ds generalizing c with
  | nil =>
    cases hr with
    | @step _ c₁ _ _ hr hs hg =>
      have hq : c₁.inFlight = 0 := hg
      cases hs with
      | callOk hk =>
        rw [hq, zero_add]
        cases called_of_ok hk with
        | register => exact ⟨Function.update_self .., by simp [Relay.OfBreeding]⟩
        | registerNone hnone => exact ⟨hnone, by simp⟩
      | callError hk => exact absurd hk (registerNewBorns_ne_error _ _)
  | cons e ds ih =>
    cases e with
    | call => cases hds
    | deliver r v =>
      cases hr with
      | step hr hs hg =>
        obtain ⟨hnew, hall⟩ := ih hr hds
        have hbr := hall r hs.mem_inFlight
        cases hs with
        | deliverOk hm hk =>
          have hd := delivered_of_ok hk
          rw [hm] at hall
          refine ⟨?_, forall_mem_add_coe.mpr
            ⟨fun r' hr' => hall r' (Multiset.mem_cons_of_mem hr'), fun r' hr' => ?_⟩⟩
          · cases hd with
            | collectNewBorns | registerNewBorn => exact hnew
            | storeMinted | breedMatron | breedSire | storeNewBorn => exact absurd trivial hbr
          · rwa [ofBreeding_of_emitted hd hr']
        | deliverError hm hk =>
          rw [hm] at hall
          exact ⟨hnew, fun r' hr' => hall r' (Multiset.mem_cons_of_mem hr')⟩

/-- **What a registration found is gone.** -/
theorem cleared_of_run (hr : (kitty X).Run Eager ⟨deployed A ℤ X.shardOrder, 0⟩ h c)
    (hfew : (mints h).length + (acceptedBreeds h).length < 2 ^ 31) (hq : c.inFlight = 0) :
    Cleared X h c := by
  intro ds shard v h₁ c₁ heq hds hr₁ i n hn
  by_contra hne
  have hfree := keysFree_of_run (keyMoved_of_eager hr) hfew
  have hmem := (tracked_of_run hfree).mem_of_ge (newBornKey_ge i) hne
  rw [places, Config.carried_of_quiescent _ hq, add_zero, Multiset.mem_add] at hmem
  rcases hmem with hmem | hmem
  · -- a newborn with this key waits on the shard that was emptied
    obtain ⟨shard', hmem⟩ := mem_waiting.mp hmem
    obtain ⟨j, n', hn', hown, -⟩ := mem_slots.mp hmem
    have hshard' := shardOf_of_mem_newBorns hr (List.mem_of_getElem? hn')
    have hshard := shardOf_of_mem_newBorns hr₁ (List.mem_of_getElem? hn)
    obtain rfl : shard' = shard := by rw [← hshard', ← hshard, hown]
    rw [heq] at hr
    rw [(newBorns_of_registered hr hds).1] at hn'
    cases hn'
  · obtain ⟨n', hn', -⟩ := exists_of_mem_registered hr hmem
    have hlt := (List.getElem?_eq_some_iff.mp hn').1.trans_le (length_allKitties_le hfree)
    exact absurd (newBornKey_ge i) (not_le.mpr hlt)

/-! ### Without registration -/

/-- With nothing in flight and nothing registered, every kitty of `allKitties` was stored by its
mint. -/
theorem mem_stored_of_quiescent
    {G : History A ℤ X.shardOrder → Config (State A ℤ X.shardOrder) (Relay A ℤ) →
      Event (Call A ℤ X.shardOrder) (Relay A ℤ) Unit Fault → Prop}
    (hr : (kitty X).Run G ⟨deployed A ℤ X.shardOrder, 0⟩ h c) (hq : c.inFlight = 0)
    (hnone : registered h = []) {m : ℕ} {matron : KittyInfo A}
    (hm : c.state.allKitties[m]? = some matron) : (matron.owner, m) ∈ stored h := by
  have howners := owners_eq hr
  rw [Config.carried_of_quiescent _ hq, hnone, zero_add, Multiset.coe_nil, add_zero] at howners
  rw [← Multiset.mem_coe, howners]
  exact mem_idsFrom_zero.mpr ⟨matron, hm, rfl⟩

/-- The matron that a relay is about to change is one of these. -/
def Relay.MatronIn (ps : List (A × ℕ)) : Relay A ℤ → Prop
  | .breedMatron self _ _ m _ => (self, m) ∈ ps
  | _ => True

omit [DecidableEq A] in
theorem Relay.MatronIn.mono {ps ps' : List (A × ℕ)} (hps : ps ⊆ ps') {r : Relay A ℤ}
    (hr : r.MatronIn ps) : r.MatronIn ps' := by
  cases r with
  | breedMatron => exact hps hr
  | _ => trivial

/-- The keys and ids agree, and whatever was minted is where it was stored. -/
structure Agreed (h : History A ℤ X.shardOrder)
    (c : Config (State A ℤ X.shardOrder) (Relay A ℤ)) : Prop where
  registered_eq : registered h = []
  ids : IdsAgree c.state
  kept : ∀ p ∈ stored h, c.state.myKitties p.1 p.2 ≠ none
  matrons : ∀ r ∈ c.inFlight, r.MatronIn (stored h)

namespace Agreed

variable {h' : History A ℤ X.shardOrder} {c' : Config (State A ℤ X.shardOrder) (Relay A ℤ)}

omit [DecidableEq A] in
/-- A step that touches no entry. -/
theorem frame (ha : Agreed h c) (hreg : registered h' = registered h)
    (hstored : stored h' = stored h) (hsame : c'.state.myKitties = c.state.myKitties)
    (hmatrons : ∀ r ∈ c'.inFlight, r.MatronIn (stored h)) : Agreed h' c' where
  registered_eq := hreg.trans ha.registered_eq
  ids a key x hx := ha.ids a key x (hsame ▸ hx)
  kept p hp := hsame ▸ ha.kept p (hstored ▸ hp)
  matrons := hstored ▸ hmatrons

/-- A step that writes an entry under its id. -/
theorem put {self : A} {key : ℕ} {x : Kitty ℤ} (ha : Agreed h c)
    (hreg : registered h' = registered h)
    (hput : c'.state.myKitties = (c.state.put self key x).myKitties) (hx : x.id = key)
    (hstored : ∀ p ∈ stored h', p = (self, key) ∨ p ∈ stored h)
    (hmatrons : ∀ r ∈ c'.inFlight, r.MatronIn (stored h')) : Agreed h' c' where
  registered_eq := hreg.trans ha.registered_eq
  ids a i y hy := ha.ids.put hx a i y (hput ▸ hy)
  kept p hp := hput ▸ put_myKitties_ne_none ((hstored p hp).imp_right (ha.kept p))
  matrons := hmatrons

omit [DecidableEq A] in
/-- A matron is read where it was stored. -/
theorem read_id (ha : Agreed h c) {self : A} {m : ℕ} (hmem : (self, m) ∈ stored h) :
    (c.state.read self m).id = m := by
  obtain ⟨x, hx⟩ := Option.ne_none_iff_exists'.mp (ha.kept _ hmem)
  rw [State.read, hx]
  exact ha.ids self m x hx

end Agreed

/-- **Without registration the keys and ids agree**, along every eager run. -/
theorem agreed_of_run (hr : (kitty X).Run Unregistered ⟨deployed A ℤ X.shardOrder, 0⟩ h c) :
    Agreed h c := by
  refine invariant_of_run hr (I := Agreed) ?_ ?_ ?_ ?_
  · refine ⟨rfl, fun a key x hx => ?_, fun p hp => absurd hp List.not_mem_nil,
      fun r hr => absurd hr (Multiset.notMem_zero r)⟩
    cases hx
  · intro h c k eff hr ha hg hk
    have hq : c.inFlight = 0 := hg.1
    rw [hq, zero_add]
    cases hk with
    | breed hm => exact ha.frame rfl rfl rfl (by
        simpa [Relay.MatronIn] using mem_stored_of_quiescent hr hq ha.registered_eq hm)
    | register hsome => exact absurd hg.2 hsome
    | _ => exact ha.frame rfl rfl rfl (by simp [Relay.MatronIn])
  · intro h c k f ha
    exact ha.frame rfl rfl rfl ha.matrons
  · intro h st r rest eff hr ha _ hk
    have hbr := ofBreeding_of_none_found (fun _ hg => hg.2) hr r (Multiset.mem_cons_self r rest)
    have hrest : ∀ r' ∈ rest, r'.MatronIn (stored h) := fun r' hr' =>
      ha.matrons r' (Multiset.mem_cons_of_mem hr')
    cases hk with
    | storeMinted self genes gender id =>
      refine ha.put rfl rfl rfl (fun p hp => List.mem_cons.mp hp) (forall_mem_add_coe.mpr ⟨?_, ?_⟩)
      · exact fun r' hr' => (hrest r' hr').mono (List.subset_cons_self _ _)
      · exact List.forall_mem_nil _
    | breedMatron hs =>
      have hid := ha.read_id (ha.matrons _ (Multiset.mem_cons_self _ rest))
      exact ha.put rfl rfl hid (fun p hp => .inr hp)
        (forall_mem_add_coe.mpr ⟨hrest, by simp [Relay.MatronIn]⟩)
    | breedSire =>
      exact ha.frame rfl rfl rfl (forall_mem_add_coe.mpr ⟨hrest, by simp [Relay.MatronIn]⟩)
    | storeNewBorn hid hent =>
      cases hent
      exact ha.put rfl rfl rfl (fun p hp => .inr hp)
        (forall_mem_add_coe.mpr ⟨hrest, List.forall_mem_nil _⟩)
    | collectNewBorns | registerNewBorn => exact hbr.elim

theorem cleared_of_unregistered
    (hr : (kitty X).Run Unregistered ⟨deployed A ℤ X.shardOrder, 0⟩ h c) : Cleared X h c := by
  intro ds shard v h₁ c₁ heq _ hr₁ i n hn
  obtain ⟨c', hr'⟩ := hr.of_suffix (heq ▸ List.suffix_append ds _)
  cases hr' with
  | step hr' _ hg =>
    obtain rfl := hr₁.unique hr'
    have hnone : c₁.state.newBorns shard = [] := hg.2
    rw [hnone] at hn
    cases hn

/-! ### After a registration -/

/-- An entry that has kept the id it was born with. -/
def Provisional (st : State A ℤ k) (p : A × ℕ) : Prop :=
  ∃ x, st.myKitties p.1 p.2 = some x ∧ 2 ^ 31 ≤ x.id

theorem Provisional.put {st : State A ℤ k} {p : A × ℕ} {self : A} {key : ℕ} {x : Kitty ℤ}
    (hp : Provisional st p) (hne : p ≠ (self, key)) : Provisional (st.put self key x) p := by
  obtain ⟨y, hy, hid⟩ := hp
  exact ⟨y, (State.put_myKitties_of_ne _ _ hne).trans hy, hid⟩

theorem Provisional.erase {st : State A ℤ k} {p : A × ℕ} {self : A} {key : ℕ}
    (hp : Provisional st p) (hne : p ≠ (self, key)) : Provisional (st.erase self key) p := by
  obtain ⟨y, hy, hid⟩ := hp
  exact ⟨y, (State.erase_myKitties_of_ne _ hne).trans hy, hid⟩

/-- The copy that registration makes has the id of the original. -/
theorem Provisional.move {st : State A ℤ k} {self : A} {key id : ℕ}
    (hp : Provisional st (self, key)) :
    Provisional (st.put self id (st.read self key)) (self, id) := by
  obtain ⟨x, hx, hge⟩ := hp
  have hx : st.myKitties self key = some x := hx
  refine ⟨x, ?_, hge⟩
  rw [State.put_myKitties_self, State.read, hx]
  rfl

/-- A matron that breeds keeps its id. -/
theorem Provisional.bred {st : State A ℤ k} {p : A × ℕ} {self : A} {m t : ℕ}
    (hp : Provisional st p) :
    Provisional (st.put self m { st.read self m with lastBreed := t }) p := by
  by_cases heq : p = (self, m)
  · subst heq
    obtain ⟨x, hx, hid⟩ := hp
    have hx : st.myKitties self m = some x := hx
    refine ⟨_, State.put_myKitties_self .., ?_⟩
    simpa [State.read, hx] using hid
  · exact hp.put heq

/-- A registered newborn keeps its id, and so do the others. -/
theorem provisional_registerNewBorn {st : State A ℤ X.shardOrder} {rest : Multiset (Relay A ℤ)}
    {self : A} {i id : ℕ} {r : Relay A ℤ} (hrel : r = .registerNewBorn self i id)
    (hr : (kitty X).Run (KeysFree X) ⟨deployed A ℤ X.shardOrder, 0⟩ h ⟨st, r ::ₘ rest⟩)
    (hall : ∀ p ∈ places h ⟨st, r ::ₘ rest⟩, Provisional st p) {p : A × ℕ}
    (hp : p ∈ (self, id) ::ₘ places h ⟨st, rest⟩) :
    Provisional ((st.put self id (st.read self (newBornKey i))).erase self (newBornKey i)) p := by
  subst hrel
  have hnodup := (tracked_of_run hr).nodup
  obtain ⟨-, hfree⟩ := notMem_places_of_gives hr rfl
  rw [places_registerNewBorn_before] at hnodup hfree hall
  rw [Multiset.nodup_cons] at hnodup
  rw [Multiset.mem_cons, not_or] at hfree
  rcases Multiset.mem_cons.mp hp with rfl | hp
  · exact (hall _ (Multiset.mem_cons_self _ _)).move.erase hfree.1
  · have hkept : Provisional (st.put self id (st.read self (newBornKey i))) p :=
      (hall p (Multiset.mem_cons_of_mem hp)).put fun heq => hfree.2 (heq ▸ hp)
    exact hkept.erase fun heq => hnodup.1 (heq ▸ hp)

/-- **A newborn keeps the id it was born with**, before and after it is registered. -/
theorem provisional_of_mem_places
    (hr : (kitty X).Run (KeysFree X) ⟨deployed A ℤ X.shardOrder, 0⟩ h c) :
    ∀ p ∈ places h c, Provisional c.state p := by
  refine invariant_of_run hr (I := fun h c => ∀ p ∈ places h c, Provisional c.state p) ?_ ?_ id ?_
  · intro p hp
    simp [places, waiting, deployed, registered] at hp
  · intro h c k eff _ ih _ hk p hp
    rw [places_call h hk] at hp
    cases hk <;> exact ih p hp
  · intro h st r rest eff hr ih hg hk p hp
    cases hk with
    | storeMinted self genes gender id =>
      rw [places_deliver h rfl rfl rfl] at hp
      exact (ih p hp).put fun heq => (notMem_places_of_gives hr rfl).2 (heq ▸ hp)
    | breedMatron =>
      rw [places_deliver h rfl rfl rfl] at hp
      exact (ih p hp).bred
    | breedSire =>
      rw [places_deliver h rfl rfl rfl] at hp
      exact ih p hp
    | @storeNewBorn self s m gender newGenes birthTime _ _ hid hent =>
      cases hent
      subst hid
      rw [places_storeNewBorn, Multiset.mem_cons] at hp
      rcases hp with rfl | hp
      · exact ⟨_, State.put_myKitties_self .., newBornKey_ge _⟩
      · exact (ih p hp).put fun heq => notMem_places_of_keysFree hr hg (heq ▸ hp)
    | collectNewBorns ns =>
      rw [places_deliver h rfl (sum_slots_registrations 0 _ ns) rfl] at hp
      exact ih p hp
    | registerNewBorn self i id =>
      rw [places_registerNewBorn_after] at hp
      exact provisional_registerNewBorn rfl hr ih hp

/-- A newborn was registered, or is about to be. -/
def Collected (h : History A ℤ k) (c : Config (State A ℤ k) (Relay A ℤ)) : Prop :=
  registered h ≠ [] ∨ c.carried Relay.slots ≠ 0

theorem Collected.step {e : Event (Call A ℤ X.shardOrder) (Relay A ℤ) Unit Fault}
    {c' : Config (State A ℤ X.shardOrder) (Relay A ℤ)} (hc : Collected h c)
    (hr : (kitty X).Run Eager ⟨deployed A ℤ X.shardOrder, 0⟩ h c) (hs : (kitty X).Step c e c') :
    Collected (e :: h) c' := by
  rcases hc with hreg | hslots
  · left
    rw [registered_cons]
    exact List.append_ne_nil_of_right_ne_nil _ hreg
  · cases hs with
    | callOk hk =>
      right
      rw [Config.carried_add]
      exact fun hzero => hslots (add_eq_zero.mp hzero).1
    | callError => exact .inr hslots
    | @deliverOk r rest eff hm hk =>
      rw [Config.carried, hm, Multiset.map_cons, Multiset.sum_cons] at hslots
      cases delivered_of_ok hk with
      | registerNewBorn self i id =>
        left
        rw [registered_cons]
        exact List.cons_ne_nil _ _
      | collectNewBorns ns =>
        right
        rw [Config.carried_add, sum_slots_registrations, add_comm]
        exact hslots
      | _ =>
        right
        rw [Config.carried_add]
        simpa [Relay.slots] using hslots
    | @deliverError r rest f hm hk =>
      have hr := parentsBelow_of_run hr r (hm ▸ Multiset.mem_cons_self r rest)
      exact absurd hk (relay_ne_error hr)

/-- An eager run in which some registration finds a newborn registers it. -/
theorem unregistered_or_collected
    (hr : (kitty X).Run Eager ⟨deployed A ℤ X.shardOrder, 0⟩ h c) :
    (kitty X).Run Unregistered ⟨deployed A ℤ X.shardOrder, 0⟩ h c ∨ Collected h c := by
  induction hr with
  | nil => exact .inl .nil
  | @step h c c' e hr hs hg ih =>
    rcases ih with hun | hc
    · by_cases hnone : Unregistered h c e
      · exact .inl (hun.step hs hnone)
      · right
        cases e with
        | deliver => exact absurd ⟨hg, trivial⟩ hnone
        | call k v =>
          cases k with
          | registerNewBorns shard =>
            cases hs with
            | callOk hk =>
              right
              cases called_of_ok hk with
              | register hsome =>
                rw [Config.carried_add]
                intro hzero
                have hslots := congrArg Multiset.card (add_eq_zero.mp hzero).2
                simp [Relay.slots, hsome] at hslots
              | registerNone hempty => exact absurd ⟨hg, hempty⟩ hnone
            | callError hk => exact absurd hk (registerNewBorns_ne_error _ _)
          | _ => exact absurd ⟨hg, trivial⟩ hnone
    · exact .inr (hc.step hr hs)

/-- A registered newborn is kept under a key that is not its id. -/
theorem not_idsAgree_of_registered
    (hr : (kitty X).Run (KeysFree X) ⟨deployed A ℤ X.shardOrder, 0⟩ h c)
    (hreg : registered h ≠ []) : ¬ IdsAgree c.state := by
  intro hids
  obtain ⟨⟨a, id⟩, hmem⟩ := List.exists_mem_of_ne_nil _ hreg
  obtain ⟨x, hx, hge⟩ := provisional_of_mem_places hr (a, id)
    (Multiset.mem_add.mpr (.inr (Multiset.mem_coe.mpr hmem)))
  obtain ⟨n, hn, -⟩ := exists_of_mem_registered hr hmem
  have hlt := (List.getElem?_eq_some_iff.mp hn).1.trans_le (length_allKitties_le hr)
  rw [hids a id x hx] at hge
  exact absurd hge (not_le.mpr hlt)

/-- One address mints two kitties, breeds them and registers the newborn: it is kept under `2`, and
its id is `0x80000000`. -/
theorem exists_registered_run : ∃ h c,
    (kitty (oneShard .trap)).Run Eager ⟨deployed (Fin 2) ℤ 0, 0⟩ h c ∧ c.inFlight = 0 ∧
    (mints h).length + (acceptedBreeds h).length < 2 ^ 31 ∧
    ∃ x, c.state.myKitties 0 2 = some x ∧ x.id = 0x80000000 := by
  obtain ⟨⟨h, c⟩, hx, hq, hfew, hid⟩ :
      ∃ r ∈ (kitty (oneShard .trap)).exec Eager ⟨deployed (Fin 2) ℤ 0, 0⟩
        [.call (.mint 4 true 0), .deliver (.storeMinted 0 4 true 0),
         .call (.mint 9 false 0), .deliver (.storeMinted 0 9 false 1),
         .call (.breed 0 0 1 true), .deliver (.breedMatron 0 0 1 0 true),
         .deliver (.breedSire 0 0 4 1 0 true), .deliver (.storeNewBorn 0 1 0 true 6 0),
         .call (.registerNewBorns 0), .deliver (.collectNewBorns [⟨true, 0, 0⟩]),
         .deliver (.registerNewBorn 0 0 2)],
        r.2.inFlight = 0 ∧ (mints r.1).length + (acceptedBreeds r.1).length < 2 ^ 31 ∧
        (r.2.state.myKitties 0 2).map Kitty.id = some 0x80000000 := by
    decide
  exact ⟨h, c, Machine.exec_run hx, hq, hfew, Option.map_eq_some_iff.mp hid⟩

/-- **Keys and ids.** In every run in which a call is made only with nothing in flight, and which
has come to rest: if no registration has found a newborn, the keys and ids agree. With less than
`2 ^ 31` kitties they agree in no other case, but the keys that were registered last are gone in
all. -/
theorem keys_agree (X : Chain A) {h : History A ℤ X.shardOrder}
    {c : Config (State A ℤ X.shardOrder) (Relay A ℤ)}
    (hr : (kitty X).Run Eager ⟨deployed A ℤ X.shardOrder, 0⟩ h c) (hq : c.inFlight = 0) :
    ((kitty X).Run Unregistered ⟨deployed A ℤ X.shardOrder, 0⟩ h c → KeysAgree X h c) ∧
    ((mints h).length + (acceptedBreeds h).length < 2 ^ 31 →
      Cleared X h c ∧ (KeysAgree X h c →
        (kitty X).Run Unregistered ⟨deployed A ℤ X.shardOrder, 0⟩ h c)) := by
  constructor
  · intro hun
    exact ⟨(agreed_of_run hun).ids, cleared_of_unregistered hun⟩
  · intro hfew
    refine ⟨cleared_of_run hr hfew hq, fun hagree => ?_⟩
    refine (unregistered_or_collected hr).resolve_right ?_
    rintro (hreg | hslots)
    · exact not_idsAgree_of_registered (keysFree_of_run (keyMoved_of_eager hr) hfew) hreg hagree.ids
    · exact hslots (Config.carried_of_quiescent _ hq)

/-- Two kitties are bred after a registration that found nothing: keys and ids agree. Where the
newborn is registered, its provisional key is gone. -/
theorem keys_agree_oneShard :
    (∃ h c, (kitty (oneShard .trap)).Run Unregistered ⟨deployed (Fin 2) ℤ 0, 0⟩ h c ∧
      c.inFlight = 0 ∧ acceptedBreeds h = [⟨0, 0, 1, true⟩] ∧ KeysAgree (oneShard .trap) h c) ∧
    ∃ h c, (kitty (oneShard .trap)).Run Eager ⟨deployed (Fin 2) ℤ 0, 0⟩ h c ∧
      c.inFlight = 0 ∧ c.state.myKitties 0 2 ≠ none ∧ Cleared (oneShard .trap) h c := by
  constructor
  · obtain ⟨⟨h, c⟩, hx, hq, hbreeds⟩ :
        ∃ r ∈ (kitty (oneShard .trap)).exec Unregistered ⟨deployed (Fin 2) ℤ 0, 0⟩
          [.call (.mint 4 true 0), .deliver (.storeMinted 0 4 true 0),
           .call (.mint 9 false 0), .deliver (.storeMinted 0 9 false 1),
           .call (.registerNewBorns 0), .call (.breed 0 0 1 true),
           .deliver (.breedMatron 0 0 1 0 true), .deliver (.breedSire 0 0 4 1 0 true),
           .deliver (.storeNewBorn 0 1 0 true 6 0)],
          r.2.inFlight = 0 ∧ acceptedBreeds r.1 = [⟨0, 0, 1, true⟩] := by
      decide
    have hr := Machine.exec_run hx
    exact ⟨h, c, hr, hq, hbreeds, (keys_agree _ (hr.mono fun _ _ _ he => he.1) hq).1 hr⟩
  · obtain ⟨h, c, hr, hq, hfew, x, hx, -⟩ := exists_registered_run
    exact ⟨h, c, hr, hq, hx ▸ Option.some_ne_none x, ((keys_agree _ hr hq).2 hfew).1⟩

/-- The registered newborn has kept its provisional key as its id. -/
theorem registered_id_kept : ∃ h c,
    (kitty (oneShard .trap)).Run Eager ⟨deployed (Fin 2) ℤ 0, 0⟩ h c ∧ c.inFlight = 0 ∧
    (∃ x, c.state.myKitties 0 2 = some x ∧ x.id = 0x80000000) ∧
    ¬ KeysAgree (oneShard .trap) h c := by
  obtain ⟨h, c, hr, hq, -, x, hx, hid⟩ := exists_registered_run
  refine ⟨h, c, hr, hq, ⟨x, hx, hid⟩, fun hagree => ?_⟩
  have hkey : x.id = 2 := hagree.ids 0 2 x hx
  omega

end Runs

end KittyBreeding

end Preda

end RelayContracts
