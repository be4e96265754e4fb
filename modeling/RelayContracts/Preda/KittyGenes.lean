import RelayContracts.Preda.KittyTracking

/-!
# The genes of the newborns

What breeding makes of the minted kitties, as long as nothing is registered. Each accepted breed
should leave a newborn with its initiator, with the two parents and the product of the square roots
of the genes they were minted with; and the minted kitties should stay as they are
(`BredFromMints`).

`breed` only asks whether the parents are in `allKitties`. A kitty is entered there by `mint`
itself, but its genes reach the owner with a relay. A breed that overtakes that relay reads the
default value of a missing entry, and its newborn has the genes `0` (`bred_too_early`). With the
relay of a kitty delivered before the fragments that read its genes, `bred_from_mints` holds along
every run. It also needs that the ids and the keys of the newborns do not meet: they do from the id
`2 ^ 31` on.

## Main results

* `faithful_of_run` — the invariant
* `bred_from_mints`, `bred_too_early`
-/

namespace RelayContracts

namespace Preda

namespace KittyBreeding

open RelayMachine

variable {A : Type} {k : ℕ}

/-- A minted kitty is with its owner, with the genes it was minted with. -/
def Kept (st : State A ℤ k) (id : ℕ) (x : Minted A ℤ) : Prop :=
  ∃ y, st.myKitties x.owner id = some y ∧ y.id = id ∧ y.genes = x.genes ∧
    y.matronId = 0xffffffff ∧ y.sireId = 0xffffffff

/-- The genes are those of a newborn of the `m`-th and the `s`-th mint. -/
def Mixture (h : History A ℤ k) (m s : ℕ) (genes : ℤ) : Prop :=
  ∃ x y, (mints h)[m]? = some x ∧ (mints h)[s]? = some y ∧ genes = sqrt x.genes * sqrt y.genes

/-- **Breeding is faithful to the mints**: the accepted breeds and the keys of the newborns
correspond, each newborn has the right parents and genes, newborns of one shard have different keys,
and the minted kitties are as they were. -/
def BredFromMints (X : Chain A) (h : History A ℤ X.shardOrder)
    (c : Config (State A ℤ X.shardOrder) (Relay A ℤ)) : Prop :=
  (∃ keys : List (A × ℕ), keys.Nodup ∧
    (∀ a key, (a, key) ∈ keys ↔ 2 ^ 31 ≤ key ∧ c.state.myKitties a key ≠ none) ∧
    (∀ p ∈ keys, ∀ q ∈ keys, X.shardOf p.1 = X.shardOf q.1 → p.2 = q.2 → p = q) ∧
    List.Forall₂ (fun b p => p.1 = b.initiator ∧ ∃ y, c.state.myKitties p.1 p.2 = some y ∧
      y.matronId = b.m ∧ y.sireId = b.s ∧ Mixture h b.m b.s y.genes) (acceptedBreeds h) keys) ∧
  ∀ id x, (mints h)[id]? = some x → Kept c.state id x

/-- What is kept under the key of a newborn comes from an accepted breed. -/
theorem BredFromMints.exists_of_kept {X : Chain A} {h : History A ℤ X.shardOrder}
    {c : Config (State A ℤ X.shardOrder) (Relay A ℤ)} (hbred : BredFromMints X h c) {a : A}
    {key : ℕ} {y : Kitty ℤ} (hkey : 2 ^ 31 ≤ key) (hy : c.state.myKitties a key = some y) :
    ∃ b ∈ acceptedBreeds h, Mixture h b.m b.s y.genes := by
  obtain ⟨⟨keys, -, hkeys, -, hmatch⟩, -⟩ := hbred
  have hmem : (a, key) ∈ keys := (hkeys a key).mpr ⟨hkey, hy ▸ Option.some_ne_none y⟩
  obtain ⟨b, hb, -, y', hy', -, -, hmix⟩ := exists_of_forall₂_of_mem hmatch.flip hmem
  cases hy.symm.trans hy'
  exact ⟨b, hb, hmix⟩

/-! ### Runs without registration -/

/-- The guard that lets nothing be registered. -/
def NoRegister {γ : Type} (_ : History A γ k) (_ : Config (State A γ k) (Relay A γ)) :
    Event (Call A γ k) (Relay A γ) Unit Fault → Prop
  | .call (.registerNewBorns _) _ => False
  | _ => True

instance {γ : Type} (h : History A γ k) (c : Config (State A γ k) (Relay A γ))
    (e : Event (Call A γ k) (Relay A γ) Unit Fault) : Decidable (NoRegister h c e) :=
  match e with
  | .call (.registerNewBorns _) _ => isFalse fun hg => hg
  | .call (.mint _ _ _) _ | .call (.breed _ _ _ _) _ | .call (.newBlock _) _ | .deliver _ _ =>
    isTrue trivial

/-- Only relays of `mint` and `breed` are in flight as long as no registration finds a newborn, in
either variant. -/
theorem ofBreeding_of_none_found {γ : Type} [DecidableEq A] [Zero γ] {X : Chain A}
    {V : Variant A γ X.shardOrder}
    {G : History A γ X.shardOrder → Config (State A γ X.shardOrder) (Relay A γ) →
      Event (Call A γ X.shardOrder) (Relay A γ) Unit Fault → Prop}
    (hnone : ∀ {h c shard v}, (machine X V).Run G ⟨deployed A γ X.shardOrder, 0⟩ h c →
      G h c (.call (.registerNewBorns shard) v) → c.state.newBorns shard = [])
    {h : History A γ X.shardOrder} {c : Config (State A γ X.shardOrder) (Relay A γ)}
    (hr : (machine X V).Run G ⟨deployed A γ X.shardOrder, 0⟩ h c) :
    ∀ r ∈ c.inFlight, r.OfBreeding := by
  refine hr.forall_inFlight (P := fun _ _ r => r.OfBreeding)
    (fun r hr => absurd hr (Multiset.notMem_zero r)) ?_ id ?_ id
  · intro h c k eff hr hg hk
    refine ⟨fun _ hr => hr, ?_⟩
    cases called_of_ok hk with
    | mint | breed | newBlock | registerNone => simp [Relay.OfBreeding]
    | register hsome => exact absurd (hnone hr hg) hsome
  · intro h st r rest eff _ _ hk hbr
    refine ⟨fun _ hr => hr, ?_⟩
    cases delivered_of_ok hk with
    | collectNewBorns | registerNewBorn => exact hbr.elim
    | storeMinted | breedMatron | breedSire | storeNewBorn => simp [Relay.OfBreeding]

theorem ofBreeding_of_run {γ : Type} [DecidableEq A] [Zero γ] {X : Chain A}
    {V : Variant A γ X.shardOrder} {h : History A γ X.shardOrder}
    {c : Config (State A γ X.shardOrder) (Relay A γ)}
    (hr : (machine X V).Run NoRegister ⟨deployed A γ X.shardOrder, 0⟩ h c) :
    ∀ r ∈ c.inFlight, r.OfBreeding :=
  ofBreeding_of_none_found (fun _ hg => hg.elim) hr

section NoRegister

variable [DecidableEq A] {X : Chain A} {h : History A ℤ X.shardOrder}
  {c : Config (State A ℤ X.shardOrder) (Relay A ℤ)}

/-- Without registration nothing has been registered, and `allKitties` are the minted kitties. -/
theorem allKitties_of_run (hr : (kitty X).Run NoRegister ⟨deployed A ℤ X.shardOrder, 0⟩ h c) :
    registered h = [] ∧ c.state.allKitties.map (fun n => (n.gender, n.owner)) =
      (mints h).map fun x => (x.gender, x.owner) := by
  refine invariant_of_run hr (I := fun h c => registered h = [] ∧
    c.state.allKitties.map (fun n => (n.gender, n.owner)) =
      (mints h).map fun x => (x.gender, x.owner)) ⟨rfl, rfl⟩ ?_ ?_ ?_
  · rintro h c k eff _ ⟨ihr, iha⟩ hg hk
    rw [registered_cons, mints_cons]
    cases hk with
    | mint genes gender owner => simp [registered?, minted?, ihr, iha]
    | breed | newBlock => simp [registered?, minted?, ihr, iha]
    | register | registerNone => exact hg.elim
  · intro h c k f ih
    rwa [registered_cons, mints_cons, minted?_rejected, Option.toList, List.append_nil]
  · rintro h st r rest eff hr ⟨ihr, iha⟩ _ hk
    have hbr := ofBreeding_of_run hr r (Multiset.mem_cons_self r rest)
    rw [registered_cons, mints_cons]
    cases hk with
    | collectNewBorns | registerNewBorn => exact hbr.elim
    | storeNewBorn hid hent =>
      cases hent
      simpa [registered?, minted?, ihr] using iha
    | storeMinted | breedMatron | breedSire => simpa [registered?, minted?, ihr] using iha

theorem length_mints_of_run (hr : (kitty X).Run NoRegister ⟨deployed A ℤ X.shardOrder, 0⟩ h c) :
    c.state.allKitties.length = (mints h).length := by
  simpa using congrArg List.length (allKitties_of_run hr).2

/-- The kitties of the list and the mints, one by one. -/
theorem exists_mint_of_getElem? (hr : (kitty X).Run NoRegister ⟨deployed A ℤ X.shardOrder, 0⟩ h c)
    {i : ℕ} {n : KittyInfo A} (hn : c.state.allKitties[i]? = some n) :
    ∃ x, (mints h)[i]? = some x ∧ x.gender = n.gender ∧ x.owner = n.owner := by
  have hi := congrArg (fun l => l[i]?) (allKitties_of_run hr).2
  simp only [List.getElem?_map, hn, Option.map_some] at hi
  obtain ⟨x, hx, heq⟩ := Option.map_eq_some_iff.mp hi.symm
  exact ⟨x, hx, congrArg Prod.fst heq, congrArg Prod.snd heq⟩

/-- Without registration, only the places on the shards are in use. -/
theorem places_of_run (hr : (kitty X).Run NoRegister ⟨deployed A ℤ X.shardOrder, 0⟩ h c) :
    c.carried Relay.slots = 0 ∧ places h c = waiting c.state.newBorns := by
  have hcarried : c.carried Relay.slots = 0 := by
    refine Multiset.eq_zero_of_forall_notMem fun p hp => ?_
    obtain ⟨r, hr', hp⟩ := Config.mem_carried.mp hp
    have hbr := ofBreeding_of_run hr r hr'
    cases r with
    | collectNewBorns | registerNewBorn => exact hbr
    | _ => exact Multiset.notMem_zero p hp
  refine ⟨hcarried, ?_⟩
  rw [places, hcarried, (allKitties_of_run hr).1]
  exact (add_zero _).trans (add_zero _)

end NoRegister

/-! ### Genes along a run -/

/-- The guard of faithful breeding. A fragment that reads the genes of a kitty is executed after the
relay that brings them, nothing is registered, and neither the mints nor the newborns of a shard are
more than `2 ^ 31`. -/
def MintedFirst (X : Chain A) (_ : History A ℤ X.shardOrder)
    (c : Config (State A ℤ X.shardOrder) (Relay A ℤ)) :
    Event (Call A ℤ X.shardOrder) (Relay A ℤ) Unit Fault → Prop
  | .call (.mint _ _ _) _ => c.state.allKitties.length < 2 ^ 31
  | .call (.registerNewBorns _) _ => False
  | .deliver (.breedMatron _ _ _ m _) _ => ∀ r ∈ c.inFlight, r.mintedId ≠ some m
  | .deliver (.breedSire _ _ _ s _ _) _ => ∀ r ∈ c.inFlight, r.mintedId ≠ some s
  | .deliver (.storeNewBorn self _ _ _ _ _) _ =>
    (c.state.newBorns (X.shardOf self)).length < 2 ^ 31
  | _ => True

/-- What the relays of `mint` and `breed` say about the mints is true. -/
def Relay.Genuine (h : History A ℤ k) : Relay A ℤ → Prop
  | .storeMinted self genes gender id => (mints h)[id]? = some ⟨genes, gender, self⟩
  | .breedMatron self _ s m _ =>
    (∃ x, (mints h)[m]? = some x ∧ x.owner = self) ∧ s < (mints h).length
  | .breedSire self _ mGenes s m _ =>
    (∃ x, (mints h)[m]? = some x ∧ x.genes = mGenes) ∧
      ∃ y, (mints h)[s]? = some y ∧ y.owner = self
  | .storeNewBorn _ s m _ newGenes _ => Mixture h m s newGenes
  | .collectNewBorns _ => True
  | .registerNewBorn _ _ _ => True

theorem getElem?_mints_cons {h : History A ℤ k} {e : Event (Call A ℤ k) (Relay A ℤ) Unit Fault}
    {i : ℕ} {x : Minted A ℤ} (hx : (mints h)[i]? = some x) : (mints (e :: h))[i]? = some x := by
  rw [mints_cons, List.getElem?_append_left (List.getElem?_eq_some_iff.mp hx).1, hx]

theorem Mixture.cons {h : History A ℤ k} {m s : ℕ} {genes : ℤ} (hmix : Mixture h m s genes)
    (e : Event (Call A ℤ k) (Relay A ℤ) Unit Fault) : Mixture (e :: h) m s genes := by
  obtain ⟨x, y, hx, hy, hgenes⟩ := hmix
  exact ⟨x, y, getElem?_mints_cons hx, getElem?_mints_cons hy, hgenes⟩

theorem Relay.Genuine.cons {h : History A ℤ k} {r : Relay A ℤ} (hgen : r.Genuine h)
    (e : Event (Call A ℤ k) (Relay A ℤ) Unit Fault) : r.Genuine (e :: h) := by
  cases r with
  | storeMinted self genes gender id => exact getElem?_mints_cons hgen
  | breedMatron self initiator s m gender =>
    obtain ⟨⟨x, hx, hown⟩, hs⟩ := hgen
    refine ⟨⟨x, getElem?_mints_cons hx, hown⟩, ?_⟩
    rw [mints_cons, List.length_append]
    exact Nat.lt_add_right _ hs
  | breedSire self initiator mGenes s m gender =>
    obtain ⟨⟨x, hx, hgenes⟩, y, hy, hown⟩ := hgen
    exact ⟨⟨x, getElem?_mints_cons hx, hgenes⟩, y, getElem?_mints_cons hy, hown⟩
  | storeNewBorn self s m gender newGenes birthTime => exact Mixture.cons hgen e
  | collectNewBorns | registerNewBorn => trivial

/-- The invariant of faithful breeding. -/
structure Faithful (h : History A ℤ k) (c : Config (State A ℤ k) (Relay A ℤ)) : Prop where
  genuine : ∀ r ∈ c.inFlight, r.Genuine h
  kept : ∀ {id x}, (mints h)[id]? = some x →
    .storeMinted x.owner x.genes x.gender id ∈ c.inFlight ∨ Kept c.state id x
  mixed : ∀ b ∈ births h, Mixture h b.m b.s b.genes

section Faithful

variable [DecidableEq A] {X : Chain A} {h : History A ℤ X.shardOrder}
  {c : Config (State A ℤ X.shardOrder) (Relay A ℤ)}

omit [DecidableEq A] in
theorem MintedFirst.noRegister {e : Event (Call A ℤ X.shardOrder) (Relay A ℤ) Unit Fault}
    (hg : MintedFirst X h c e) : NoRegister h c e := by
  cases e with
  | call k r =>
    cases k with
    | registerNewBorns => exact hg
    | _ => trivial
  | deliver m r => trivial

theorem noRegister_of_run
    (hr : (kitty X).Run (MintedFirst X) ⟨deployed A ℤ X.shardOrder, 0⟩ h c) :
    (kitty X).Run NoRegister ⟨deployed A ℤ X.shardOrder, 0⟩ h c :=
  hr.mono fun _ _ _ hg => hg.noRegister

/-- Faithful breeding meets the guard under which newborns are tracked. -/
theorem keysFree_of_mintedFirst
    (hr : (kitty X).Run (MintedFirst X) ⟨deployed A ℤ X.shardOrder, 0⟩ h c) :
    (kitty X).Run (KeysFree X) ⟨deployed A ℤ X.shardOrder, 0⟩ h c := by
  refine hr.mono_of_run fun {h c e c'} hr hs hg => ?_
  cases e with
  | call k r =>
    cases k with
    | mint genes gender owner => exact hg
    | _ => trivial
  | deliver m r =>
    cases m with
    | collectNewBorns ns =>
      exact (ofBreeding_of_run (noRegister_of_run hr) _ hs.mem_inFlight).elim
    | storeNewBorn self s m gender newGenes birthTime =>
      refine ⟨hg, ?_⟩
      rw [(places_of_run (noRegister_of_run hr)).1]
      exact Multiset.notMem_zero _
    | _ => trivial

variable {st : State A ℤ X.shardOrder} {id : ℕ} {x : Minted A ℤ}

theorem Kept.put_of_ne {self : A} {i : ℕ} (hkept : Kept st id x) (y : Kitty ℤ)
    (hne : (x.owner, id) ≠ (self, i)) : Kept (st.put self i y) id x := by
  obtain ⟨z, hz, hrest⟩ := hkept
  exact ⟨z, by rw [State.put_myKitties_of_ne y st hne, hz], hrest⟩

/-- Breeding changes nothing of a matron but the time of its last breed. -/
theorem Kept.breedMatron {self : A} {m : ℕ} (hkept : Kept st id x) :
    Kept (st.put self m { st.read self m with lastBreed := st.height }) id x := by
  by_cases heq : (x.owner, id) = (self, m)
  · cases heq
    obtain ⟨y, hy, hid, hgenes, hmatron, hsire⟩ := hkept
    have hread : st.read x.owner id = y := by rw [State.read, hy, Option.getD_some]
    exact ⟨_, State.put_myKitties_self .., by rw [hread]; exact ⟨hid, hgenes, hmatron, hsire⟩⟩
  · exact hkept.put_of_ne _ heq

omit [DecidableEq A] in
theorem Kept.genes_read {self : A} (hkept : Kept st id x) (hown : x.owner = self) :
    (st.read self id).genes = x.genes := by
  obtain ⟨y, hy, -, hgenes, -⟩ := hkept
  rw [State.read, ← hown, hy, Option.getD_some, hgenes]

omit [DecidableEq A] in
/-- A kitty whose relay is not in flight is with its owner. -/
theorem Faithful.kept_of_arrived (hf : Faithful h c) (hx : (mints h)[id]? = some x)
    (harrived : ∀ r ∈ c.inFlight, r.mintedId ≠ some id) : Kept c.state id x :=
  (hf.kept hx).resolve_left fun hmem => harrived _ hmem rfl

/-! ### One step -/

variable {r : Relay A ℤ} {rest : Multiset (Relay A ℤ)}

omit [DecidableEq A] in
/-- A call that mints nothing. -/
theorem Faithful.call (hf : Faithful h c) {k : Call A ℤ X.shardOrder} {v : Except Fault Unit}
    {st' : State A ℤ X.shardOrder} {rs : List (Relay A ℤ)}
    (hmint : minted? (.call k v : Event _ (Relay A ℤ) Unit Fault) = none)
    (hrs : ∀ r' ∈ rs, r'.Genuine h) (hkitties : st'.myKitties = c.state.myKitties) :
    Faithful (.call k v :: h) ⟨st', c.inFlight + rs⟩ where
  genuine r' hr' := by
    rcases Multiset.mem_add.mp hr' with hr' | hr'
    · exact (hf.genuine r' hr').cons _
    · exact (hrs r' hr').cons _
  kept {id x} hx := by
    rw [mints_cons, hmint, Option.toList, List.append_nil] at hx
    refine (hf.kept hx).imp (fun hmem => Multiset.mem_add.mpr (.inl hmem)) fun hkept => ?_
    rwa [Kept, hkitties]
  mixed b hb := (hf.mixed b hb).cons _

omit [DecidableEq A] in
/-- A relay that brings no minted kitty. -/
theorem Faithful.deliver (hf : Faithful h ⟨st, r ::ₘ rest⟩) (hr : r.mintedId = none)
    {st' : State A ℤ X.shardOrder} {rs : List (Relay A ℤ)} (hrs : ∀ r' ∈ rs, r'.Genuine h)
    (hkeep : ∀ {id x}, (mints h)[id]? = some x → Kept st id x → Kept st' id x)
    (hbirth : ∀ b, birth? (.deliver r (.ok ()) : Event (Call A ℤ X.shardOrder) _ Unit Fault) =
      some b → Mixture h b.m b.s b.genes) :
    Faithful (.deliver r (.ok ()) :: h) ⟨st', rest + rs⟩ where
  genuine r' hr' := by
    rcases Multiset.mem_add.mp hr' with hr' | hr'
    · exact (hf.genuine r' (Multiset.mem_cons_of_mem hr')).cons _
    · exact (hrs r' hr').cons _
  kept {id x} hx := by
    rw [mints_deliver] at hx
    refine (hf.kept hx).imp (fun hmem => ?_) (hkeep hx)
    rcases Multiset.mem_cons.mp hmem with rfl | hmem
    · cases hr
    · exact Multiset.mem_add.mpr (.inl hmem)
  mixed b hb := by
    rw [births_cons, List.mem_append, Option.mem_toList] at hb
    rcases hb with hb | hb
    · exact (hbirth b hb).cons _
    · exact (hf.mixed b hb).cons _

omit [DecidableEq A] in
/-- A mint puts the relay of the kitty in flight. -/
theorem Faithful.mint (hf : Faithful h c) (hlen : c.state.allKitties.length = (mints h).length)
    (genes : ℤ) (gender : Bool) (owner : A) {st' : State A ℤ X.shardOrder}
    (hkitties : st'.myKitties = c.state.myKitties) :
    Faithful (.call (.mint genes gender owner) (.ok ()) :: h) ⟨st', c.inFlight +
      ([.storeMinted owner genes gender c.state.allKitties.length] : List (Relay A ℤ))⟩ := by
  have hmints : mints (.call (.mint genes gender owner) (.ok ()) :: h) =
      mints h ++ [⟨genes, gender, owner⟩] := mints_cons _ h
  refine ⟨fun r hr => ?_, fun {id x} hx => ?_, fun b hb => (hf.mixed b hb).cons _⟩
  · rcases Multiset.mem_add.mp hr with hr | hr
    · exact (hf.genuine r hr).cons _
    · cases List.mem_singleton.mp hr
      show (mints _)[_]? = _
      rw [hmints, hlen, List.getElem?_concat_length]
  · rw [hmints, getElem?_concat_eq_some] at hx
    rcases hx with hx | ⟨rfl, rfl⟩
    · refine (hf.kept hx).imp (fun hmem => Multiset.mem_add.mpr (.inl hmem)) fun hkept => ?_
      rwa [Kept, hkitties]
    · rw [hlen]
      exact .inl (Multiset.mem_add.mpr (.inr (List.mem_singleton.mpr rfl)))

/-- The genes sent on by the matron's owner are those it was minted with. -/
theorem Faithful.breedMatron {self initiator : A} {s m : ℕ} {gender : Bool} {sire : KittyInfo A}
    (hr : (kitty X).Run NoRegister ⟨deployed A ℤ X.shardOrder, 0⟩ h
      ⟨st, .breedMatron self initiator s m gender ::ₘ rest⟩)
    (hf : Faithful h ⟨st, .breedMatron self initiator s m gender ::ₘ rest⟩)
    (harrived : ∀ r ∈ (.breedMatron self initiator s m gender ::ₘ rest), r.mintedId ≠ some m)
    (hs : st.allKitties[s]? = some sire) :
    Faithful (.deliver (.breedMatron self initiator s m gender) (.ok ()) :: h)
      ⟨st.put self m { st.read self m with lastBreed := st.height },
        rest + ([.breedSire sire.owner initiator (st.read self m).genes s m gender] :
          List (Relay A ℤ))⟩ := by
  obtain ⟨⟨x, hx, hown⟩, -⟩ := hf.genuine _ (Multiset.mem_cons_self _ rest)
  refine hf.deliver rfl (fun r hmem => ?_) (fun _ hkept => hkept.breedMatron)
    fun b hb => by cases hb
  cases List.mem_singleton.mp hmem
  obtain ⟨y, hy, -, hyown⟩ := exists_mint_of_getElem? hr hs
  exact ⟨⟨x, hx, ((hf.kept_of_arrived hx harrived).genes_read hown).symm⟩, y, hy, hyown⟩

omit [DecidableEq A] in
/-- The sire's owner mixes the genes of the two mints. -/
theorem Faithful.breedSire {self initiator : A} {mGenes newGenes : ℤ} {s m : ℕ} {gender : Bool}
    (hf : Faithful h ⟨st, .breedSire self initiator mGenes s m gender ::ₘ rest⟩)
    (harrived : ∀ r ∈ (.breedSire self initiator mGenes s m gender ::ₘ rest), r.mintedId ≠ some s)
    (hmix : (bigint A X.shardOrder).mixture mGenes (st.read self s).genes = .ok newGenes) :
    Faithful (.deliver (.breedSire self initiator mGenes s m gender) (.ok ()) :: h)
      ⟨st, rest + ([.storeNewBorn initiator s m gender newGenes st.height] :
        List (Relay A ℤ))⟩ := by
  obtain ⟨⟨x, hx, hgenes⟩, y, hy, hown⟩ := hf.genuine _ (Multiset.mem_cons_self _ rest)
  refine hf.deliver rfl (fun r hr => ?_) (fun _ hkept => hkept) fun b hb => by cases hb
  cases List.mem_singleton.mp hr
  cases hmix
  refine ⟨x, y, hx, hy, ?_⟩
  rw [(hf.kept_of_arrived hy harrived).genes_read hown, hgenes]

/-- A newborn is stored under a key that no minted kitty has. -/
theorem Faithful.storeNewBorn {self : A} {s m : ℕ} {gender : Bool} {newGenes : ℤ} {birthTime : ℕ}
    (hf : Faithful h ⟨st, .storeNewBorn self s m gender newGenes birthTime ::ₘ rest⟩)
    (hfew : (mints h).length ≤ 2 ^ 31) {idNb : ℕ} (hid : 2 ^ 31 ≤ idNb) (y : Kitty ℤ)
    (n : KittyInfo A) :
    Faithful (.deliver (.storeNewBorn self s m gender newGenes birthTime) (.ok ()) :: h)
      ⟨(st.put self idNb y).push (X.shardOf self) n, rest + ([] : List (Relay A ℤ))⟩ := by
  refine hf.deliver rfl (List.forall_mem_nil _) (fun {id x} hx hkept => ?_) fun b hb => ?_
  · have hlt : id < (mints h).length := (List.getElem?_eq_some_iff.mp hx).1
    have hne : (x.owner, id) ≠ (self, idNb) := fun heq => by cases heq; omega
    exact hkept.put_of_ne y hne
  · cases hb
    exact hf.genuine _ (Multiset.mem_cons_self _ rest)

/-- The relay of a minted kitty. -/
theorem Faithful.storeMinted {self : A} {genes : ℤ} {gender : Bool}
    (hf : Faithful h ⟨st, .storeMinted self genes gender id ::ₘ rest⟩) :
    Faithful (.deliver (.storeMinted self genes gender id) (.ok ()) :: h)
      ⟨st.put self id ⟨id, genes, 0xffffffff, 0xffffffff, st.height⟩,
        rest + ([] : List (Relay A ℤ))⟩ := by
  have hself : (mints h)[id]? = some ⟨genes, gender, self⟩ :=
    hf.genuine _ (Multiset.mem_cons_self _ rest)
  have hnew : Kept (st.put self id ⟨id, genes, 0xffffffff, 0xffffffff, st.height⟩) id
      ⟨genes, gender, self⟩ :=
    ⟨_, State.put_myKitties_self .., rfl, rfl, rfl, rfl⟩
  refine ⟨fun r hr => ?_, fun {id' x} hx => ?_, fun b hb => (hf.mixed b hb).cons _⟩
  · rcases Multiset.mem_add.mp hr with hr | hr
    · exact (hf.genuine r (Multiset.mem_cons_of_mem hr)).cons _
    · exact absurd hr List.not_mem_nil
  · rw [mints_deliver] at hx
    by_cases hid : id' = id
    · subst hid
      cases hself.symm.trans hx
      exact .inr hnew
    · refine (hf.kept hx).imp (fun hmem => ?_) fun hkept => ?_
      · rcases Multiset.mem_cons.mp hmem with heq | hmem
        · cases heq
          exact absurd rfl hid
        · exact Multiset.mem_add.mpr (.inl hmem)
      · exact hkept.put_of_ne _ fun heq => hid (congrArg Prod.snd heq)

/-! ### Whole runs -/

/-- **Breeding stays faithful** along every run in which the genes arrive before they are read. -/
theorem faithful_of_run (hr : (kitty X).Run (MintedFirst X) ⟨deployed A ℤ X.shardOrder, 0⟩ h c) :
    Faithful h c := by
  refine invariant_of_run hr (I := Faithful) ⟨fun r hr => absurd hr (Multiset.notMem_zero r),
    (fun hx => by cases hx), fun b hb => absurd hb List.not_mem_nil⟩ ?_ ?_ ?_
  · intro h c k eff hr hf hg hk
    have hno := noRegister_of_run hr
    cases hk with
    | mint genes gender owner => exact hf.mint (length_mints_of_run hno) genes gender owner rfl
    | @breed initiator m s gender matron hm hs _ =>
      refine hf.call rfl (fun r hr => ?_) rfl
      cases List.mem_singleton.mp hr
      obtain ⟨x, hx, -, hown⟩ := exists_mint_of_getElem? hno hm
      exact ⟨⟨x, hx, hown⟩, length_mints_of_run hno ▸ hs⟩
    | register | registerNone => exact hg.elim
    | newBlock height => exact hf.call rfl (List.forall_mem_nil _) rfl
  · intro h c k f hf
    have hcall : Faithful (.call k (.error f) :: h)
        ⟨c.state, c.inFlight + ([] : List (Relay A ℤ))⟩ :=
      hf.call (minted?_rejected k f) (List.forall_mem_nil _) rfl
    simpa using hcall
  · intro h st r rest eff hr hf hg hk
    have hno := noRegister_of_run hr
    have hbr := ofBreeding_of_run hno r (Multiset.mem_cons_self r rest)
    cases hk with
    | storeMinted self genes gender id => exact hf.storeMinted
    | breedMatron hs => exact hf.breedMatron hno hg hs
    | breedSire hmix => exact hf.breedSire hg hmix
    | storeNewBorn hid hent =>
      cases hent
      have hfew : (mints h).length ≤ 2 ^ 31 := by
        rw [← length_mints_of_run hno]
        exact length_allKitties_le (keysFree_of_mintedFirst hr)
      exact hf.storeNewBorn hfew (hid ▸ newBornKey_ge _) _ _
    | collectNewBorns | registerNewBorn => exact hbr.elim

theorem bred_from_mints_of_run
    (hr : (kitty X).Run (MintedFirst X) ⟨deployed A ℤ X.shardOrder, 0⟩ h c) (hq : c.inFlight = 0) :
    BredFromMints X h c := by
  have hno := noRegister_of_run hr
  have hfree := keysFree_of_mintedFirst hr
  have hf := faithful_of_run hr
  have ht := tracked_of_run hfree
  have hplaces := (places_of_run hno).2
  have hmem : ∀ {a key}, (a, key) ∈ places h c ↔ 2 ^ 31 ≤ key ∧ c.state.myKitties a key ≠ none := by
    intro a key
    refine ⟨fun hp => ⟨ge_of_mem_waiting (hplaces ▸ hp), ?_⟩, fun hp => ht.mem_of_ge hp.1 hp.2⟩
    obtain ⟨y, hy⟩ := ht.exists_of_mem hp
    exact hy ▸ Option.some_ne_none y
  obtain ⟨bs, keys, -, hbreeds, hkeys, hmatch⟩ := ht.exists_matching hr hq
  have hiff : ∀ {p}, p ∈ keys ↔ p ∈ places h c := fun {p} => by rw [← hkeys, Multiset.mem_coe]
  refine ⟨⟨keys, ?_, fun a key => hiff.trans hmem, fun p hp q hp' hshard hkey => ?_, ?_⟩,
    fun id x hx => ?_⟩
  · rw [← Multiset.coe_nodup, hkeys]
    exact ht.nodup
  · rw [hiff, hplaces] at hp hp'
    exact eq_of_mem_waiting hfree hp hp' hshard hkey
  · rw [← hbreeds, List.forall₂_map_left_iff]
    refine hmatch.imp fun b p hbp => ?_
    obtain ⟨hb, -, hown, y, hy, hgenes, hm, hs⟩ := hbp
    exact ⟨hown, y, hy, hm, hs, hgenes ▸ hf.mixed b hb⟩
  · exact (hf.kept hx).resolve_left fun hin => by
      rw [hq] at hin
      exact Multiset.notMem_zero _ hin

/-- **Breeding concurrent with minting.** In every run in which the fragments that read the genes of
a kitty come after the relay that brings them, breeding is faithful to the mints. -/
theorem bred_from_mints (X : Chain A) {h : History A ℤ X.shardOrder}
    {c : Config (State A ℤ X.shardOrder) (Relay A ℤ)}
    (hr : (kitty X).Run (MintedFirst X) ⟨deployed A ℤ X.shardOrder, 0⟩ h c) (hq : c.inFlight = 0) :
    BredFromMints X h c := bred_from_mints_of_run hr hq

instance (h : History A ℤ X.shardOrder) (c : Config (State A ℤ X.shardOrder) (Relay A ℤ))
    (e : Event (Call A ℤ X.shardOrder) (Relay A ℤ) Unit Fault) :
    Decidable (MintedFirst X h c e) :=
  match e with
  | .call (.mint _ _ _) _ => inferInstanceAs (Decidable (_ < _))
  | .call (.registerNewBorns _) _ => isFalse fun hg => hg
  | .deliver (.breedMatron _ _ _ m _) _ =>
    inferInstanceAs (Decidable (∀ r ∈ c.inFlight, r.mintedId ≠ some m))
  | .deliver (.breedSire _ _ _ s _ _) _ =>
    inferInstanceAs (Decidable (∀ r ∈ c.inFlight, r.mintedId ≠ some s))
  | .deliver (.storeNewBorn _ _ _ _ _ _) _ => inferInstanceAs (Decidable (_ < _))
  | .call (.breed _ _ _ _) _ | .call (.newBlock _) _ | .deliver (.storeMinted _ _ _ _) _
  | .deliver (.collectNewBorns _) _ | .deliver (.registerNewBorn _ _ _) _ => isTrue trivial

/-- A breed starts while the relay of another mint is in flight. -/
theorem bred_from_mints_oneShard : ∃ h c,
    (kitty (oneShard .trap)).Run (MintedFirst _) ⟨deployed (Fin 2) ℤ 0, 0⟩ h c ∧
    acceptedBreeds h = [⟨1, 0, 1, true⟩] ∧ BredFromMints (oneShard .trap) h c := by
  obtain ⟨⟨h, c⟩, hx, hq, hbreeds⟩ :
      ∃ r ∈ (kitty (oneShard .trap)).exec (MintedFirst _) ⟨deployed (Fin 2) ℤ 0, 0⟩
        [.call (.mint 4 true 0), .call (.mint 9 false 0), .call (.breed 1 0 1 true),
         .deliver (.storeMinted 0 4 true 0), .deliver (.breedMatron 0 1 1 0 true),
         .deliver (.storeMinted 0 9 false 1), .deliver (.breedSire 0 1 4 1 0 true),
         .deliver (.storeNewBorn 1 1 0 true 6 0)],
        r.2.inFlight = 0 ∧ acceptedBreeds r.1 = [⟨1, 0, 1, true⟩] := by
    decide
  exact ⟨h, c, Machine.exec_run hx, hbreeds, bred_from_mints _ (Machine.exec_run hx) hq⟩

/-- A breed overtakes the relay of the kitty it breeds: the newborn has the genes `0`, and not those
of its parents. -/
theorem bred_too_early : ∃ h c,
    (kitty (oneShard .trap)).Run NoRegister ⟨deployed (Fin 2) ℤ 0, 0⟩ h c ∧ c.inFlight = 0 ∧
    mints h = [⟨4, true, 0⟩] ∧ acceptedBreeds h = [⟨1, 0, 0, true⟩] ∧
    c.state.myKitties 1 (newBornKey 0) = some ⟨newBornKey 0, 0, 0, 0, 0⟩ ∧
    ¬ BredFromMints (oneShard .trap) h c := by
  obtain ⟨⟨h, c⟩, hx, hq, hmints, hbreeds, hkept⟩ :
      ∃ r ∈ (kitty (oneShard .trap)).exec NoRegister ⟨deployed (Fin 2) ℤ 0, 0⟩
        [.call (.mint 4 true 0), .call (.breed 1 0 0 true), .deliver (.breedMatron 0 1 0 0 true),
         .deliver (.breedSire 0 1 0 0 0 true), .deliver (.storeNewBorn 1 0 0 true 0 0),
         .deliver (.storeMinted 0 4 true 0)],
        r.2.inFlight = 0 ∧ mints r.1 = [⟨4, true, 0⟩] ∧ acceptedBreeds r.1 = [⟨1, 0, 0, true⟩] ∧
        r.2.state.myKitties 1 (newBornKey 0) = some ⟨newBornKey 0, 0, 0, 0, 0⟩ := by
    decide
  refine ⟨h, c, Machine.exec_run hx, hq, hmints, hbreeds, hkept, fun hbred => ?_⟩
  obtain ⟨b, hb, x, y, hx, hy, hgenes⟩ := hbred.exists_of_kept (newBornKey_ge 0) hkept
  rw [hbreeds, List.mem_singleton] at hb
  subst hb
  rw [hmints] at hx hy
  cases hx
  cases hy
  revert hgenes
  decide

end Faithful

end KittyBreeding

end Preda

end RelayContracts
