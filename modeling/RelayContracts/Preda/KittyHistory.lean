import Mathlib.Data.List.Sigma
import RelayContracts.Ledger
import RelayContracts.Preda.Kitty
import RelayContracts.Synchronous

/-!
# Histories of the kitty contract

What a history of `Kitty.prd` says: which kitties were minted, which breeds were accepted, which
newborns were stored and which were registered. None of the results here restricts the run. No relay
of the contract fails (`relay_ne_error`), so each accepted breed is in one of the relays of its
chain or has led to a birth, each id of `allKitties` is with its owner or on its way there, and each
birth is pending on its shard or in a registration, or is registered.

## Main definitions

* `mints`, `acceptedBreeds`, `births`, `stored`, `registered` — what has happened
* `slots`, `Relay.slots`, `Relay.gives`, `Relay.breeds` — what is on its way

## Main results

* `acceptedBreeds_eq` — the chain of relays of `breed` loses nothing
* `owners_eq` — each id is given to its owner once
* `length_allKitties_eq` — the number of kitties
-/

namespace RelayContracts

namespace Preda

namespace KittyBreeding

open RelayMachine

/-- The events of a run, latest first. -/
abbrev History (A γ : Type) (k : ℕ) := List (Event (Call A γ k) (Relay A γ) Unit Fault)

/-- The arguments of a mint. -/
structure Minted (A γ : Type) where
  /-- The genes. -/
  genes : γ
  /-- True for a matron. -/
  gender : Bool
  /-- The owner. -/
  owner : A
  deriving DecidableEq, Repr

/-- A call of `breed`. -/
structure Breed (A : Type) where
  /-- Who called it. -/
  initiator : A
  /-- The matron. -/
  m : ℕ
  /-- The sire. -/
  s : ℕ
  /-- The gender of the newborn. -/
  gender : Bool
  deriving DecidableEq, Repr

/-- A newborn: the breed it comes from and the genes computed for it. -/
structure Birth (A γ : Type) extends Breed A where
  /-- The genes. -/
  genes : γ
  deriving DecidableEq, Repr

variable {A γ : Type} {k : ℕ}

/-! ### What has happened -/

/-- The kitty an event has minted. -/
def minted? : Event (Call A γ k) (Relay A γ) Unit Fault → Option (Minted A γ)
  | .call (.mint genes gender owner) (.ok _) => some ⟨genes, gender, owner⟩
  | _ => none

/-- The mints executed, oldest first. -/
def mints (h : History A γ k) : List (Minted A γ) := (h.filterMap minted?).reverse

/-- Whether a call is one of `mint`. -/
def Call.isMint : Call A γ k → Bool
  | .mint _ _ _ => true
  | _ => false

/-- The breed an event has accepted. -/
def accepted? : Event (Call A γ k) (Relay A γ) Unit Fault → Option (Breed A)
  | .call (.breed initiator m s gender) (.ok _) => some ⟨initiator, m, s, gender⟩
  | _ => none

/-- The breeds accepted, latest first. -/
def acceptedBreeds (h : History A γ k) : List (Breed A) := h.filterMap accepted?

theorem mem_acceptedBreeds {h : History A γ k} {b : Breed A} :
    b ∈ acceptedBreeds h ↔ .call (.breed b.initiator b.m b.s b.gender) (.ok ()) ∈ h := by
  rw [acceptedBreeds, List.mem_filterMap]
  constructor
  · rintro ⟨e, he, hacc⟩
    rw [accepted?.eq_def] at hacc
    split at hacc
    · cases hacc
      exact he
    · cases hacc
  · intro he
    exact ⟨_, he, rfl⟩

/-- The newborn an event has stored. -/
def birth? : Event (Call A γ k) (Relay A γ) Unit Fault → Option (Birth A γ)
  | .deliver (.storeNewBorn self s m gender newGenes _) (.ok _) =>
    some ⟨⟨self, m, s, gender⟩, newGenes⟩
  | _ => none

/-- The newborns stored, latest first. -/
def births (h : History A γ k) : List (Birth A γ) := h.filterMap birth?

/-- The minted kitty an event has stored, by its owner and id. -/
def stored? : Event (Call A γ k) (Relay A γ) Unit Fault → Option (A × ℕ)
  | .deliver (.storeMinted self _ _ id) (.ok _) => some (self, id)
  | _ => none

/-- The minted kitties stored. -/
def stored (h : History A γ k) : List (A × ℕ) := h.filterMap stored?

/-- The newborn an event has registered, by its owner and id. -/
def registered? : Event (Call A γ k) (Relay A γ) Unit Fault → Option (A × ℕ)
  | .deliver (.registerNewBorn self _ id) (.ok _) => some (self, id)
  | _ => none

/-- The newborns registered. -/
def registered (h : History A γ k) : List (A × ℕ) := h.filterMap registered?

/-- What stands in a list with one element more. -/
theorem getElem?_concat_eq_some {α : Type} {xs : List α} {x y : α} {i : ℕ} :
    (xs ++ [x])[i]? = some y ↔ xs[i]? = some y ∨ i = xs.length ∧ x = y := by
  grind

section Events

variable (e : Event (Call A γ k) (Relay A γ) Unit Fault) (h : History A γ k)

theorem mints_cons : mints (e :: h) = mints h ++ (minted? e).toList := by
  cases he : minted? e <;> simp [mints, he]

variable {h} in
theorem length_mints_le {h' : History A γ k} (hsuffix : h' <:+ h) :
    (mints h').length ≤ (mints h).length := by
  rw [mints, mints, List.length_reverse, List.length_reverse]
  exact (hsuffix.sublist.filterMap minted?).length_le

theorem acceptedBreeds_cons :
    acceptedBreeds (e :: h) = (accepted? e).toList ++ acceptedBreeds h := by
  cases he : accepted? e <;> simp [acceptedBreeds, he]

theorem births_cons : births (e :: h) = (birth? e).toList ++ births h := by
  cases he : birth? e <;> simp [births, he]

theorem stored_cons : stored (e :: h) = (stored? e).toList ++ stored h := by
  cases he : stored? e <;> simp [stored, he]

theorem registered_cons : registered (e :: h) = (registered? e).toList ++ registered h := by
  cases he : registered? e <;> simp [registered, he]

theorem mints_deliver (r : Relay A γ) (v : Except Fault Unit) :
    mints (.deliver r v :: h) = mints h := rfl

@[simp] theorem minted?_rejected (c : Call A γ k) (f : Fault) :
    minted? (.call c (.error f) : Event _ (Relay A γ) Unit Fault) = none := by
  cases c <;> rfl

@[simp] theorem accepted?_rejected (c : Call A γ k) (f : Fault) :
    accepted? (.call c (.error f) : Event _ (Relay A γ) Unit Fault) = none := by
  cases c <;> rfl

end Events

/-! ### What is on its way -/

/-- The keys that a list of newborns is kept under, the first one having the index `i`. -/
def slots (i : ℕ) (newBorns : List (KittyInfo A)) : List (A × ℕ) :=
  ((newBorns.map KittyInfo.owner).zipIdx i).map fun p => (p.1, newBornKey p.2)

/-- The keys that a relay still has to move to an id. -/
def Relay.slots : Relay A γ → Multiset (A × ℕ)
  | .collectNewBorns newBorns => KittyBreeding.slots 0 newBorns
  | .registerNewBorn self newBornIndex _ => {(self, newBornKey newBornIndex)}
  | _ => 0

/-- The id that a relay brings to its owner. -/
def Relay.gives : Relay A γ → Multiset (A × ℕ)
  | .storeMinted self _ _ id => {(self, id)}
  | .registerNewBorn self _ id => {(self, id)}
  | _ => 0

/-- The breed that a relay belongs to. -/
def Relay.breeds : Relay A γ → Multiset (Breed A)
  | .breedMatron _ initiator s m gender => {⟨initiator, m, s, gender⟩}
  | .breedSire _ initiator _ s m gender => {⟨initiator, m, s, gender⟩}
  | .storeNewBorn self s m gender _ _ => {⟨self, m, s, gender⟩}
  | _ => 0

/-- The id of the minted kitty that a relay brings to its owner. -/
def Relay.mintedId : Relay A γ → Option ℕ
  | .storeMinted _ _ _ id => some id
  | _ => none

/-- A relay of `mint` or of `breed`. -/
def Relay.OfBreeding : Relay A γ → Prop
  | .collectNewBorns _ => False
  | .registerNewBorn _ _ _ => False
  | _ => True

instance : DecidablePred (Relay.OfBreeding : Relay A γ → Prop)
  | .collectNewBorns _ | .registerNewBorn _ _ _ => isFalse id
  | .storeMinted _ _ _ _ | .breedMatron _ _ _ _ _ | .breedSire _ _ _ _ _ _
  | .storeNewBorn _ _ _ _ _ _ => isTrue trivial

/-- How many newborns a relay has collected and not entered in `allKitties`. -/
def Relay.collecting : Relay A γ → ℕ
  | .collectNewBorns newBorns => newBorns.length
  | _ => 0

/-- The keys of the newborns that no registration has collected yet. -/
def waiting (newBorns : Fin (2 ^ k) → List (KittyInfo A)) : Multiset (A × ℕ) :=
  ∑ shard, (slots 0 (newBorns shard) : Multiset (A × ℕ))

/-- The ids of a list of kitties with their owners, the first one being `id`. -/
def idsFrom (id : ℕ) (kitties : List (KittyInfo A)) : Multiset (A × ℕ) :=
  (kitties.map KittyInfo.owner).zipIdx id

theorem idsFrom_append (id : ℕ) (ns ns' : List (KittyInfo A)) :
    idsFrom id (ns ++ ns') = idsFrom id ns + idsFrom (id + ns.length) ns' := by
  rw [idsFrom, List.map_append, List.zipIdx_append, ← Multiset.coe_add, List.length_map]
  rfl

theorem idsFrom_singleton (id : ℕ) (n : KittyInfo A) : idsFrom id [n] = {(n.owner, id)} := rfl

theorem mem_idsFrom_zero {kitties : List (KittyInfo A)} {a : A} {id : ℕ} :
    (a, id) ∈ idsFrom 0 kitties ↔ ∃ n, kitties[id]? = some n ∧ n.owner = a := by
  rw [idsFrom, Multiset.mem_coe, List.mk_mem_zipIdx_iff_getElem?, List.getElem?_map,
    Option.map_eq_some_iff]

theorem nodup_idsFrom (kitties : List (KittyInfo A)) :
    ((idsFrom 0 kitties).map Prod.snd).Nodup := by
  rw [idsFrom, Multiset.map_coe, Multiset.coe_nodup]
  exact List.nodup_zipIdx_map_snd _

@[simp] theorem slots_nil (i : ℕ) : slots i ([] : List (KittyInfo A)) = [] := rfl

theorem slots_append (i : ℕ) (ns ns' : List (KittyInfo A)) :
    slots i (ns ++ ns') = slots i ns ++ slots (i + ns.length) ns' := by
  rw [slots, List.map_append, List.zipIdx_append, List.map_append, List.length_map]
  rfl

@[simp] theorem length_slots (i : ℕ) (ns : List (KittyInfo A)) :
    (slots i ns).length = ns.length := by
  simp [slots]

theorem mem_slots {ns : List (KittyInfo A)} {a : A} {key : ℕ} :
    (a, key) ∈ slots 0 ns ↔ ∃ i n, ns[i]? = some n ∧ n.owner = a ∧ key = newBornKey i := by
  rw [slots, List.mem_map]
  constructor
  · rintro ⟨⟨b, i⟩, hmem, heq⟩
    rw [List.mk_mem_zipIdx_iff_getElem?, List.getElem?_map, Option.map_eq_some_iff] at hmem
    obtain ⟨n, hn, rfl⟩ := hmem
    cases heq
    exact ⟨i, n, hn, rfl, rfl⟩
  · rintro ⟨i, n, hn, rfl, rfl⟩
    refine ⟨(n.owner, i), ?_, rfl⟩
    rw [List.mk_mem_zipIdx_iff_getElem?, List.getElem?_map, hn]
    rfl

theorem mem_waiting {newBorns : Fin (2 ^ k) → List (KittyInfo A)} {p : A × ℕ} :
    p ∈ waiting newBorns ↔ ∃ shard, p ∈ slots 0 (newBorns shard) := by
  simp [waiting, Multiset.mem_sum]

theorem card_waiting (newBorns : Fin (2 ^ k) → List (KittyInfo A)) :
    (waiting newBorns).card = ∑ shard, (newBorns shard).length := by
  simp [waiting, Multiset.card_sum]

/-- A newborn pushed to a shard adds its key. -/
theorem waiting_push (newBorns : Fin (2 ^ k) → List (KittyInfo A)) (shard : Fin (2 ^ k))
    (n : KittyInfo A) :
    waiting (Function.update newBorns shard (newBorns shard ++ [n])) =
      waiting newBorns + {(n.owner, newBornKey (newBorns shard).length)} := by
  let f (t : Fin (2 ^ k)) : Multiset (A × ℕ) := slots 0 (newBorns t)
  have hpush : (slots 0 (newBorns shard ++ [n]) : Multiset (A × ℕ)) =
      f shard + {(n.owner, newBornKey (newBorns shard).length)} := by
    rw [slots_append, ← Multiset.coe_add, Nat.zero_add]
    rfl
  rw [waiting, waiting, ← sum_update_credit f, ← hpush]
  refine Finset.sum_congr rfl fun t _ => ?_
  exact Function.apply_update (fun _ ns => (slots 0 ns : Multiset (A × ℕ))) newBorns shard _ t

/-- A shard that is cleared gives its keys away. -/
theorem waiting_clear (newBorns : Fin (2 ^ k) → List (KittyInfo A)) (shard : Fin (2 ^ k)) :
    waiting (Function.update newBorns shard []) + slots 0 (newBorns shard) = waiting newBorns := by
  let f (t : Fin (2 ^ k)) : Multiset (A × ℕ) := slots 0 (newBorns t)
  have hclear : (0 : Multiset (A × ℕ)) + slots 0 (newBorns shard) = f shard := zero_add _
  rw [waiting, waiting, ← sum_update_debit f hclear]
  congr 1
  refine Finset.sum_congr rfl fun t _ => ?_
  exact Function.apply_update (fun _ ns => (slots 0 ns : Multiset (A × ℕ))) newBorns shard _ t

theorem exists_of_mem_registrations {r : Relay A γ} {i id : ℕ} {ns : List (KittyInfo A)}
    (hr : r ∈ registrations i id ns) : ∃ self j id', r = .registerNewBorn self j id' := by
  induction ns generalizing i id with
  | nil => cases hr
  | cons n ns ih =>
    rcases List.mem_cons.mp hr with rfl | hr
    · exact ⟨n.owner, i, id, rfl⟩
    · exact ih hr

theorem sum_slots_registrations (i id : ℕ) (ns : List (KittyInfo A)) :
    ((registrations (γ := γ) i id ns).map Relay.slots).sum = slots i ns := by
  induction ns generalizing i id with
  | nil => rfl
  | cons n ns ih =>
    rw [registrations, List.map_cons, List.sum_cons, ih, ← List.singleton_append, slots_append,
      ← Multiset.coe_add]
    rfl

theorem sum_gives_registrations (i id : ℕ) (ns : List (KittyInfo A)) :
    ((registrations (γ := γ) i id ns).map Relay.gives).sum = idsFrom id ns := by
  induction ns generalizing i id with
  | nil => rfl
  | cons n ns ih =>
    rw [registrations, List.map_cons, List.sum_cons, ih, ← List.singleton_append, idsFrom_append]
    rfl

/-- A measure that does not see the last relay of a registration. -/
theorem sum_registrations_eq_zero {α : Type} [AddCommMonoid α] {w : Relay A γ → α}
    (hw : ∀ self newBornIndex id, w (.registerNewBorn self newBornIndex id) = 0) (i id : ℕ)
    (ns : List (KittyInfo A)) : ((registrations i id ns).map w).sum = 0 := by
  induction ns generalizing i id with
  | nil => rfl
  | cons n ns ih => rw [registrations, List.map_cons, List.sum_cons, ih, hw, add_zero]

/-! ### How many relays follow -/

/-- How many relays are executed before what a relay has started has come to rest. -/
def Relay.hops : Relay A γ → ℕ
  | .breedMatron _ _ _ _ _ => 3
  | .breedSire _ _ _ _ _ _ => 2
  | .collectNewBorns newBorns => newBorns.length + 1
  | _ => 1

theorem Relay.hops_pos (r : Relay A γ) : 0 < r.hops := by
  cases r <;> simp [Relay.hops]

theorem sum_hops_registrations (i id : ℕ) (ns : List (KittyInfo A)) :
    ((registrations (γ := γ) i id ns).map Relay.hops).sum = ns.length := by
  induction ns generalizing i id with
  | nil => rfl
  | cons n ns ih =>
    rw [registrations, List.map_cons, List.sum_cons, ih, List.length_cons, Nat.add_comm]
    rfl

/-- A relay has more hops to go than the relays it emits. -/
theorem sum_hops_lt [DecidableEq A] [Zero γ] {X : Chain A} {V : Variant A γ X.shardOrder}
    {r : Relay A γ} {st : State A γ X.shardOrder}
    {eff : Effect (State A γ X.shardOrder) (Relay A γ) Unit}
    (hk : (machine X V).relay r st = .ok eff) : (eff.relays.map Relay.hops).sum < r.hops := by
  cases delivered_of_ok hk with
  | collectNewBorns ns =>
    rw [sum_hops_registrations]
    exact Nat.lt_succ_self _
  | _ => simp [Relay.hops]

/-- Every list of calls, latest first, has a run in which nothing is in flight when a call is
made. -/
theorem exists_eager_run [DecidableEq A] [Zero γ] (X : Chain A) (V : Variant A γ X.shardOrder)
    (ks : List (Call A γ X.shardOrder)) :
    ∃ h c, (machine X V).Run Eager ⟨deployed A γ X.shardOrder, 0⟩ h c ∧ c.inFlight = 0 ∧
      calls h = ks :=
  Machine.exists_eager_run Relay.hops Relay.hops_pos sum_hops_lt _ ks

/-! ### No relay fails -/

/-- Both parents of a breed on its way to the matron are entered in a list of this length. -/
def Relay.ParentsBelow (n : ℕ) : Relay A γ → Prop
  | .breedMatron _ _ s m _ => s < n ∧ m < n
  | _ => True

theorem Relay.ParentsBelow.mono {n n' : ℕ} (hn : n ≤ n') {r : Relay A γ}
    (hr : r.ParentsBelow n) : r.ParentsBelow n' := by
  cases r with
  | breedMatron self initiator s m gender => exact ⟨hr.1.trans_le hn, hr.2.trans_le hn⟩
  | _ => trivial

section Runs

variable [DecidableEq A] {X : Chain A}
  {G : History A ℤ X.shardOrder → Config (State A ℤ X.shardOrder) (Relay A ℤ) →
    Event (Call A ℤ X.shardOrder) (Relay A ℤ) Unit Fault → Prop}
  {h : History A ℤ X.shardOrder} {c : Config (State A ℤ X.shardOrder) (Relay A ℤ)}

theorem parentsBelow_of_run (hr : (kitty X).Run G ⟨deployed A ℤ X.shardOrder, 0⟩ h c) :
    ∀ r ∈ c.inFlight, r.ParentsBelow c.state.allKitties.length := by
  refine hr.forall_inFlight (P := fun _ st r => r.ParentsBelow st.allKitties.length)
    (fun r hr => absurd hr (Multiset.notMem_zero r)) ?_ id ?_ id
  · intro h c k eff _ _ hk
    cases called_of_ok hk with
    | mint genes gender owner => exact ⟨fun r hr => hr.mono (by simp), by simp [Relay.ParentsBelow]⟩
    | breed hm hs hg =>
      have hm := (List.getElem?_eq_some_iff.mp hm).1
      exact ⟨fun r hr => hr, by simp [Relay.ParentsBelow, hs, hm]⟩
    | register => exact ⟨fun r hr => hr, by simp [Relay.ParentsBelow]⟩
    | registerNone hnone => exact ⟨fun r hr => hr, List.forall_mem_nil _⟩
    | newBlock height => exact ⟨fun r hr => hr, List.forall_mem_nil _⟩
  · intro h st r rest eff _ _ hk _
    cases delivered_of_ok hk with
    | storeMinted self genes gender id => exact ⟨fun r hr => hr, List.forall_mem_nil _⟩
    | breedMatron hs => exact ⟨fun r hr => hr, by simp [Relay.ParentsBelow]⟩
    | breedSire hmix => exact ⟨fun r hr => hr, by simp [Relay.ParentsBelow]⟩
    | storeNewBorn hid hent =>
      cases hent
      exact ⟨fun r hr => hr, List.forall_mem_nil _⟩
    | collectNewBorns ns =>
      refine ⟨fun r hr => hr.mono (by simp), fun r hr => ?_⟩
      obtain ⟨self, j, id, rfl⟩ := exists_of_mem_registrations hr
      trivial
    | registerNewBorn self i id => exact ⟨fun r hr => hr, List.forall_mem_nil _⟩

/-- **No relay fails.** -/
theorem relay_ne_error {st : State A ℤ X.shardOrder} {r : Relay A ℤ} {f : Fault}
    (hr : r.ParentsBelow st.allKitties.length) : (kitty X).relay r st ≠ .error f := by
  cases r with
  | breedMatron self initiator s m gender =>
    have hs := List.getElem?_eq_getElem (l := st.allKitties) hr.1
    intro hk
    have hk : breedMatron self initiator s m gender st = .error f := hk
    rw [breedMatron] at hk
    simp only [State.put_allKitties, hs] at hk
    cases hk
  | _ => exact fun hk => by cases hk

/-- Induction over the runs of the contract: the case of a relay that fails does not arise. -/
theorem invariant_of_run {I : History A ℤ X.shardOrder →
      Config (State A ℤ X.shardOrder) (Relay A ℤ) → Prop}
    (hr : (kitty X).Run G ⟨deployed A ℤ X.shardOrder, 0⟩ h c)
    (hnil : I [] ⟨deployed A ℤ X.shardOrder, 0⟩)
    (hcall : ∀ {h c k eff}, (kitty X).Run G ⟨deployed A ℤ X.shardOrder, 0⟩ h c → I h c →
      G h c (.call k (.ok eff.value)) → Called c.state k eff →
      I (.call k (.ok eff.value) :: h) ⟨eff.state, c.inFlight + eff.relays⟩)
    (hrejected : ∀ {h c k f}, I h c → I (.call k (.error f) :: h) c)
    (hdeliver : ∀ {h st r rest eff},
      (kitty X).Run G ⟨deployed A ℤ X.shardOrder, 0⟩ h ⟨st, r ::ₘ rest⟩ → I h ⟨st, r ::ₘ rest⟩ →
      G h ⟨st, r ::ₘ rest⟩ (.deliver r (.ok eff.value)) →
      Delivered X (bigint A X.shardOrder) st r eff →
      I (.deliver r (.ok eff.value) :: h) ⟨eff.state, rest + eff.relays⟩) : I h c := by
  refine hr.invariant hnil (fun hr ih hg hk => hcall hr ih hg (called_of_ok hk))
    (fun _ ih _ _ => hrejected ih) (fun hr ih hg hk => hdeliver hr ih hg (delivered_of_ok hk)) ?_
  intro h st r rest f hr _ _ hk
  exact absurd hk (relay_ne_error (parentsBelow_of_run hr r (Multiset.mem_cons_self r rest)))

/-- **Each accepted breed** is in one of the relays of its chain or has led to a birth. -/
theorem acceptedBreeds_eq (hr : (kitty X).Run G ⟨deployed A ℤ X.shardOrder, 0⟩ h c) :
    c.carried Relay.breeds + ((births h).map Birth.toBreed : Multiset (Breed A)) =
      (acceptedBreeds h : Multiset (Breed A)) := by
  refine invariant_of_run hr (I := fun h c => c.carried Relay.breeds +
    ((births h).map Birth.toBreed : Multiset (Breed A)) = (acceptedBreeds h : Multiset (Breed A)))
    (by simp [births, acceptedBreeds]) ?_ ?_ ?_
  · intro h c k eff _ ih _ hk
    rw [Config.carried] at ih
    rw [Config.carried_add, births_cons, acceptedBreeds_cons, ← Multiset.coe_add, ← ih]
    cases hk <;> simp only [birth?, accepted?, Relay.breeds, List.map_cons, List.map_nil,
      List.sum_cons, List.sum_nil, Option.toList, Multiset.coe_nil, Multiset.coe_singleton,
      List.nil_append] <;> abel
  · intro h c k f ih
    rwa [births_cons, acceptedBreeds_cons, accepted?_rejected]
  · intro h st r rest eff _ ih _ hk
    rw [Config.carried_cons] at ih
    rw [Config.carried_add, births_cons, acceptedBreeds_cons, List.map_append, ← Multiset.coe_add,
      ← Multiset.coe_add, ← ih]
    have hreg := sum_registrations_eq_zero (γ := ℤ) (w := Relay.breeds (A := A)) fun _ _ _ => rfl
    cases hk <;> simp only [birth?, accepted?, Relay.breeds, hreg,
      List.map_cons, List.map_nil, List.sum_cons, List.sum_nil, Option.toList, Multiset.coe_nil,
      Multiset.coe_singleton] <;> abel

theorem length_acceptedBreeds_eq (hr : (kitty X).Run G ⟨deployed A ℤ X.shardOrder, 0⟩ h c) :
    (c.carried Relay.breeds).card + (births h).length = (acceptedBreeds h).length := by
  have hcard := congrArg Multiset.card (acceptedBreeds_eq hr)
  rwa [Multiset.card_add, Multiset.coe_card, Multiset.coe_card, List.length_map] at hcard

/-- **Each id** of `allKitties` is on its way to its owner or was stored there, as a mint or as a
registered newborn. -/
theorem owners_eq (hr : (kitty X).Run G ⟨deployed A ℤ X.shardOrder, 0⟩ h c) :
    c.carried Relay.gives + ((stored h : Multiset (A × ℕ)) + (registered h : Multiset (A × ℕ))) =
      idsFrom 0 c.state.allKitties := by
  refine invariant_of_run hr (I := fun h c => c.carried Relay.gives +
    ((stored h : Multiset (A × ℕ)) + (registered h : Multiset (A × ℕ))) =
      idsFrom 0 c.state.allKitties) (by simp [stored, registered, deployed, idsFrom]) ?_ ?_ ?_
  · intro h c k eff _ ih _ hk
    rw [Config.carried] at ih
    rw [Config.carried_add, stored_cons, registered_cons]
    cases hk with
    | mint genes gender owner =>
      rw [idsFrom_append, ← ih, idsFrom_singleton]
      simp only [stored?, registered?, Relay.gives, List.map_cons, List.map_nil, List.sum_cons,
        List.sum_nil, Option.toList, List.nil_append, Nat.zero_add]
      abel
    | _ =>
      simp only [stored?, registered?, Relay.gives, List.map_cons, List.map_nil, List.sum_cons,
        List.sum_nil, Option.toList, List.nil_append, add_zero]
      exact ih
  · intro h c k f ih
    rwa [stored_cons, registered_cons]
  · intro h st r rest eff _ ih _ hk
    rw [Config.carried_cons] at ih
    rw [Config.carried_add, stored_cons, registered_cons, ← Multiset.coe_add, ← Multiset.coe_add]
    cases hk with
    | collectNewBorns ns =>
      rw [idsFrom_append, ← ih, sum_gives_registrations]
      simp only [stored?, registered?, Relay.gives, Option.toList, Multiset.coe_nil, Nat.zero_add]
      abel
    | storeNewBorn hid hent =>
      cases hent
      simp only [State.push, State.put_allKitties, ← ih, stored?, registered?, Relay.gives,
        List.map_nil, List.sum_nil, Option.toList, Multiset.coe_nil]
      abel
    | _ =>
      simp only [State.put_allKitties, State.erase_allKitties, ← ih, stored?, registered?,
        Relay.gives, List.map_cons, List.map_nil, List.sum_cons, List.sum_nil, Option.toList,
        Multiset.coe_nil, Multiset.coe_singleton]
      abel

/-- **The number of kitties**: those in `allKitties`, those waiting on their shards and those being
collected are those minted and those born. -/
theorem length_allKitties_eq (hr : (kitty X).Run G ⟨deployed A ℤ X.shardOrder, 0⟩ h c) :
    c.carried Relay.collecting + (c.state.allKitties.length + (waiting c.state.newBorns).card) =
      (mints h).length + (births h).length := by
  refine invariant_of_run hr (I := fun h c => c.carried Relay.collecting +
    (c.state.allKitties.length + (waiting c.state.newBorns).card) =
      (mints h).length + (births h).length)
    (by simp [mints, births, deployed, waiting]) ?_ ?_ ?_
  · intro h c k eff _ ih _ hk
    rw [Config.carried] at ih
    rw [Config.carried_add, mints_cons, births_cons, List.length_append, List.length_append]
    cases hk with
    | @register shard =>
      have hclear := congrArg Multiset.card (waiting_clear c.state.newBorns shard)
      rw [Multiset.card_add, Multiset.coe_card, length_slots] at hclear
      simp only [minted?, birth?, Relay.collecting, List.map_cons, List.map_nil, List.sum_cons,
        List.sum_nil, Option.toList, List.length_nil]
      omega
    | _ =>
      simp only [minted?, birth?, Relay.collecting, List.map_cons, List.map_nil, List.sum_cons,
        List.sum_nil, List.length_append, Option.toList, List.length_cons, List.length_nil]
      omega
  · intro h c k f ih
    rwa [mints_cons, births_cons, minted?_rejected, Option.toList, List.append_nil]
  · intro h st r rest eff _ ih _ hk
    rw [Config.carried_cons] at ih
    rw [Config.carried_add, mints_cons, births_cons, List.length_append, List.length_append]
    cases hk with
    | collectNewBorns ns =>
      rw [sum_registrations_eq_zero fun _ _ _ => rfl]
      simp only [minted?, birth?, Relay.collecting, List.length_append, Option.toList,
        List.length_nil] at ih ⊢
      omega
    | storeNewBorn hid hent =>
      cases hent
      rw [State.push, State.put_newBorns, waiting_push, Multiset.card_add, Multiset.card_singleton]
      simp only [minted?, birth?, Relay.collecting, List.map_nil, List.sum_nil, Option.toList,
        List.length_cons, List.length_nil, State.put_allKitties] at ih ⊢
      omega
    | _ =>
      simp only [minted?, birth?, Relay.collecting, List.map_cons, List.map_nil, List.sum_cons,
        List.sum_nil, Option.toList, List.length_nil, State.put_allKitties, State.erase_allKitties,
        State.put_newBorns, State.erase_newBorns] at ih ⊢
      omega

/-- A newborn waits on the shard of its owner. -/
theorem shardOf_of_mem_newBorns (hr : (kitty X).Run G ⟨deployed A ℤ X.shardOrder, 0⟩ h c)
    {shard : Fin (2 ^ X.shardOrder)} {n : KittyInfo A} (hn : n ∈ c.state.newBorns shard) :
    X.shardOf n.owner = shard := by
  revert shard n
  refine invariant_of_run hr (I := fun _ c => ∀ {shard n}, n ∈ c.state.newBorns shard →
    X.shardOf n.owner = shard) (fun hn => absurd hn List.not_mem_nil) ?_ id ?_
  · intro h c k eff _ ih _ hk shard n hn
    cases hk with
    | @register t =>
      by_cases ht : shard = t
      · subst ht
        simp at hn
      · simp only [Function.update_of_ne ht] at hn
        exact ih hn
    | _ => exact ih hn
  · intro h st r rest eff _ ih _ hk shard n hn
    cases hk with
    | @storeNewBorn self s m gender newGenes birthTime _ _ hid hent =>
      cases hent
      by_cases ht : shard = X.shardOf self
      · subst ht
        simp only [State.push, Function.update_self, State.put_newBorns, List.mem_append,
          List.mem_singleton] at hn
        rcases hn with hn | rfl
        · exact ih hn
        · rfl
      · simp only [State.push, Function.update_of_ne ht] at hn
        exact ih hn
    | _ => exact ih hn

/-- A mint is never rejected. -/
theorem length_mints_eq (hr : (kitty X).Run G ⟨deployed A ℤ X.shardOrder, 0⟩ h c) :
    (mints h).length = (calls h).countP Call.isMint := by
  refine hr.invariant (I := fun h _ => (mints h).length = (calls h).countP Call.isMint) rfl
    ?_ ?_ (fun _ ih _ _ => ih) fun _ ih _ _ => ih
  · intro h c k eff _ ih _ hk
    rw [mints_cons, List.length_append, calls_cons_call, List.countP_cons, ih]
    cases called_of_ok hk <;> rfl
  · intro h c k f _ ih _ hk
    rw [mints_cons, minted?_rejected, calls_cons_call, List.countP_cons, List.length_append, ih]
    cases k with
    | mint => cases hk
    | _ => rfl

end Runs

end KittyBreeding

end Preda

end RelayContracts
