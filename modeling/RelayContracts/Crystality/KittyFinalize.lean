import RelayContracts.Crystality.KittyOwnership

/-!
# Registering the newborns of the Crystality kitty contract

A newborn is stored under a temporary key, one with bit 255 set. `finalize` is to collect the
newborns of all shards, enter them in `allKitties` and have each owner move them to the index they
got there. It starts from `newBorns`, as `registerNewBorns` does in the PREDA contract; but
`_relay_lambda_4`, which stores a newborn, does not push it to `newBorns`. So `_relay_lambda_6`
finds every shard empty, and the last two handlers are never relayed to.

`registers_iff` draws the consequence: `finalize` registers the newborns if and only if there have
never been any.

## Main definitions

* `births` — the newborns stored since `finalize` was last called
* `Registers` — what `finalize` is for
* `Barren` — the guard under which no newborn is ever on its way
-/

namespace RelayContracts

namespace Crystality

namespace KittyBreeding

open RelayMachine
open Preda (Chain)
open Preda.KittyBreeding (KittyInfo Kitty State deployed)
open Sei.KittyBreeding (newBornKey newBornKey_zero)

variable {A : Type} {k : ℕ}

/-- A newborn, as `_relay_lambda_4` is told of it. -/
structure Newborn (A : Type) where
  /-- Who gets it. -/
  owner : A
  /-- The matron. -/
  m : ℕ
  /-- The sire. -/
  s : ℕ
  /-- The gender. -/
  gender : Bool
  /-- The genes. -/
  genes : ℕ
  deriving DecidableEq, Repr

/-- The newborns stored since `finalize` was last called, oldest first. -/
def births : History A k → List (Newborn A)
  | [] => []
  | .deliver (.lambda4 scope m s gender newGenes) (.ok _) :: h =>
    births h ++ [⟨scope, m, s, gender, newGenes⟩]
  | .call (.finalize _) _ :: _ => []
  | _ :: h => births h

/-- The newborn is registered under this id, and held by its owner under it. -/
structure HeldUnder (st : State A ℕ k) (b : Newborn A) (id : ℕ) : Prop where
  /-- It is in the list. -/
  listed : ∃ info, st.allKitties[id]? = some info ∧ info.gender = b.gender ∧ info.owner = b.owner
  /-- It is in the map of its owner. -/
  held : ∃ kitty, st.myKitties b.owner id = some kitty ∧ kitty.genes = b.genes ∧
    kitty.matronId = b.m ∧ kitty.sireId = b.s

/-- What `finalize` is for, in terms of the states before it and after its last relay. -/
structure Registers (newborns : List (Newborn A)) (before after : State A ℕ k) : Prop where
  /-- The list has grown by the newborns. -/
  grown : after.allKitties.length = before.allKitties.length + newborns.length
  /-- Each has an id of its own, which is new. -/
  held : ∃ ids : List ℕ, ids.Nodup ∧ (∀ id ∈ ids, before.allKitties.length ≤ id) ∧
    List.Forall₂ (HeldUnder after) newborns ids
  /-- No kitty is overwritten, but for those under temporary keys. -/
  kept : ∀ a key kitty, key < 2 ^ 255 → before.myKitties a key = some kitty →
    after.myKitties a key = some kitty
  /-- No temporary key is left. -/
  cleared : ∀ a key, 2 ^ 255 ≤ key → after.myKitties a key = none

/-- The guard under which no newborn is ever on its way: where a mixture of genes is computed, one
of the parents has the largest value of the type for its genes. It also keeps the ids of the
registered kitties apart from the temporary keys. -/
def Barren (_ : History A k) (c : Config (State A ℕ k) (Relay A k)) :
    Event (Call A k) (Relay A k) Unit Fault → Prop
  | .deliver (.lambda0 _ _ _) _ => c.state.allKitties.length < 2 ^ 255
  | .deliver (.lambda3 scope mGenes _ s _) _ =>
    ¬ (mGenes < 2 ^ 256 - 1 ∧ (c.state.read scope s).genes < 2 ^ 256 - 1)
  | _ => True

instance (h : History A k) (c : Config (State A ℕ k) (Relay A k))
    (e : Event (Call A k) (Relay A k) Unit Fault) : Decidable (Barren h c e) :=
  match e with
  | .deliver (.lambda0 _ _ _) _ =>
    inferInstanceAs (Decidable (c.state.allKitties.length < 2 ^ 255))
  | .deliver (.lambda3 scope mGenes _ s _) _ =>
    inferInstanceAs (Decidable (¬ (mGenes < 2 ^ 256 - 1 ∧
      (c.state.read scope s).genes < 2 ^ 256 - 1)))
  | .call _ _ | .deliver (.lambda1 _ _ _) _ | .deliver (.lambda2 _ _ _ _) _
  | .deliver (.lambda4 _ _ _ _ _) _ | .deliver .lambda5 _ | .deliver (.lambda6 _) _
  | .deliver (.lambda7 _) _ | .deliver (.lambda8 _ _ _) _ => isTrue trivial

/-! ### Newborns are never collected -/

/-- The relays that register newborns. -/
def Relay.isRegistering : Relay A k → Prop
  | .lambda7 _ => True
  | .lambda8 _ _ _ => True
  | _ => False

/-- The relays that write under a temporary key. -/
def Relay.isTemporary : Relay A k → Prop
  | .lambda1 _ _ id => 2 ^ 255 ≤ id
  | .lambda4 _ _ _ _ _ => True
  | _ => False

/-- Somebody has an entry under a temporary key. -/
def Occupied (st : State A ℕ k) : Prop :=
  ∃ a key, 2 ^ 255 ≤ key ∧ (st.myKitties a key).isSome

/-- Nothing is collected, and what the counters count is there. -/
structure Uncollected (c : Config (State A ℕ k) (Relay A k)) : Prop where
  /-- No shard knows of a newborn. -/
  newBorns : ∀ t, c.state.newBorns t = []
  /-- None is being registered. -/
  inFlight : ∀ r ∈ c.inFlight, ¬ r.isRegistering
  /-- The newborns counted were stored. -/
  counted : ∀ t, c.state.newBornNums t ≠ 0 → Occupied c.state

/-- There is an entry under a temporary key, or one on its way. -/
def Tainted (c : Config (State A ℕ k) (Relay A k)) : Prop :=
  Occupied c.state ∨ ∃ r ∈ c.inFlight, r.isTemporary

theorem Tainted.occupied {c : Config (State A ℕ k) (Relay A k)} (ht : Tainted c)
    (hq : c.inFlight = 0) : Occupied c.state := by
  refine ht.resolve_right ?_
  rintro ⟨r, hr, -⟩
  rw [hq] at hr
  exact Multiset.notMem_zero r hr

variable [DecidableEq A]

/-- Writing an entry takes none away. -/
theorem Occupied.put {st : State A ℕ k} (ho : Occupied st) (scope : A) (id : ℕ) (new : Kitty ℕ) :
    Occupied (st.put scope id new) := by
  obtain ⟨a, key, hkey, hsome⟩ := ho
  refine ⟨a, key, hkey, ?_⟩
  rw [put_myKitties]
  split
  · rfl
  · exact hsome

theorem occupied_put_of_le {id : ℕ} (hid : 2 ^ 255 ≤ id) (scope : A) (new : Kitty ℕ)
    (st : State A ℕ k) : Occupied (st.put scope id new) := by
  refine ⟨scope, id, hid, ?_⟩
  rw [put_myKitties, if_pos ⟨rfl, rfl⟩]
  rfl

omit [DecidableEq A] in
theorem Occupied.of_myKitties_eq {st st' : State A ℕ k} (ho : Occupied st)
    (heq : st'.myKitties = st.myKitties) : Occupied st' := by
  obtain ⟨a, key, hkey, hsome⟩ := ho
  exact ⟨a, key, hkey, by rwa [heq]⟩

section Steps

variable {X : Chain A} {st : State A ℕ X.shardOrder} {r : Relay A X.shardOrder}
  {rest : Multiset (Relay A X.shardOrder)}
  {eff : Effect (State A ℕ X.shardOrder) (Relay A X.shardOrder) Unit}
  {c : Config (State A ℕ X.shardOrder) (Relay A X.shardOrder)} {h : History A X.shardOrder}

/-- A handler that succeeds while nothing is collected leaves the entries that are there, writes one
under a temporary key if it is to, and relays to no handler that registers newborns. -/
theorem Uncollected.delivered (hu : Uncollected ⟨st, r ::ₘ rest⟩)
    (hd : (machine X).relay r st = .ok eff) :
    (Occupied st ∨ r.isTemporary → Occupied eff.state) ∧ (∀ r' ∈ eff.relays, ¬ r'.isRegistering) ∧
      eff.state.newBorns = st.newBorns ∧
      ∀ t, eff.state.newBornNums t ≠ 0 → Occupied eff.state := by
  have hnew : ¬ r.isRegistering := hu.inFlight r (Multiset.mem_cons_self r rest)
  cases delivered_of_ok hd with
  | lambda0 owner genes gender =>
    exact ⟨fun ho => ho.resolve_right id, by simp [Relay.isRegistering], rfl, hu.counted⟩
  | lambda1 scope genes id =>
    refine ⟨?_, by simp, rfl, fun t ht => (hu.counted t ht).put scope id _⟩
    rintro (ho | hid)
    · exact ho.put scope id _
    · exact occupied_put_of_le hid scope _ st
  | @lambda2 scope m s gender sire hs =>
    exact ⟨fun ho => (ho.resolve_right id).put scope m _, by simp [Relay.isRegistering], rfl,
      fun t ht => (hu.counted t ht).put scope m _⟩
  | lambda3 hm hs =>
    exact ⟨fun ho => ho.resolve_right id, by simp [Relay.isRegistering], rfl, hu.counted⟩
  | @lambda4 scope m s gender newGenes idNb hid hroom =>
    have hborn : Occupied (st.put scope idNb ⟨idNb, newGenes, m, s, st.height⟩) := by
      have hle : 2 ^ 255 ≤ idNb := by
        rw [hid, show st.newBorns (X.shardOf scope) = [] from hu.newBorns _, List.length_nil,
          newBornKey_zero]
      exact occupied_put_of_le hle scope _ st
    exact ⟨fun _ => hborn, by simp, rfl, fun _ _ => hborn⟩
  | lambda5 =>
    exact ⟨fun ho => ho.resolve_right id, by simp [Relay.isRegistering], rfl, hu.counted⟩
  | @lambda6 shard hsome => exact absurd (hu.newBorns shard) hsome
  | lambda6None hnone => exact ⟨fun ho => ho.resolve_right id, by simp, rfl, hu.counted⟩
  | lambda7 addresses => exact absurd trivial hnew
  | lambda8 scope i id => exact absurd trivial hnew

/-- A call of an operation leaves the entries, and relays to no handler that registers newborns or
writes under a temporary key. -/
theorem called_of_operation {q : Call A X.shardOrder} (hop : q.isOperation)
    (hq : (machine X).call q st = .ok eff) :
    eff.state.myKitties = st.myKitties ∧ eff.state.newBorns = st.newBorns ∧
      eff.state.newBornNums = st.newBornNums ∧ eff.state.allKitties = st.allKitties ∧
      ∀ r ∈ eff.relays, ¬ r.isRegistering ∧ ¬ r.isTemporary ∧
        ∀ scope m s gender, r = .lambda2 scope m s gender → m < st.allKitties.length := by
  cases q with
  | mint owner genes gender =>
    cases hq
    simp [Relay.isRegistering, Relay.isTemporary]
  | breed scope m s gender =>
    obtain ⟨matron, sire, hp, rfl⟩ := (breed_eq_ok scope).mp hq
    refine ⟨rfl, rfl, rfl, rfl, fun r hr => ?_⟩
    rw [List.mem_singleton.mp hr]
    refine ⟨id, id, ?_⟩
    rintro scope' m' s' gender' heq
    cases heq
    exact (List.getElem?_eq_some_iff.mp hp.matron_eq).1
  | finalize scope =>
    cases hq
    simp [Relay.isRegistering, Relay.isTemporary]
  | newBlock height =>
    cases hq
    simp
  | direct r => cases hop

/-- A call of an operation collects nothing. -/
theorem Uncollected.call (hu : Uncollected c) {q : Call A X.shardOrder} (hop : q.isOperation)
    (hq : (machine X).call q c.state = .ok eff) :
    Uncollected ⟨eff.state, c.inFlight + eff.relays⟩ := by
  obtain ⟨hentries, hborns, hnums, -, hrelays⟩ := called_of_operation hop hq
  refine ⟨fun t => by rw [hborns, hu.newBorns],
    forall_mem_add_coe.mpr ⟨hu.inFlight, fun r hr => (hrelays r hr).1⟩, fun t ht => ?_⟩
  rw [hnums] at ht
  exact (hu.counted t ht).of_myKitties_eq hentries

/-- A call of an operation takes nothing from under a temporary key. -/
theorem Tainted.call (ht : Tainted c) {q : Call A X.shardOrder} (hop : q.isOperation)
    (hq : (machine X).call q c.state = .ok eff) :
    Tainted ⟨eff.state, c.inFlight + eff.relays⟩ := by
  rcases ht with ho | ⟨r, hr, ht⟩
  · exact .inl (ho.of_myKitties_eq (called_of_operation hop hq).1)
  · exact .inr ⟨r, Multiset.mem_add.mpr (.inl hr), ht⟩

/-- A handler that succeeds collects nothing. -/
theorem Uncollected.deliver (hu : Uncollected ⟨st, r ::ₘ rest⟩)
    (hd : (machine X).relay r st = .ok eff) : Uncollected ⟨eff.state, rest + eff.relays⟩ := by
  obtain ⟨-, hrelays, hborns, hcounted⟩ := hu.delivered hd
  refine ⟨fun t => by rw [hborns]; exact hu.newBorns t, forall_mem_add_coe.mpr ⟨?_, hrelays⟩,
    hcounted⟩
  exact fun r' hr' => hu.inFlight r' (Multiset.mem_cons_of_mem hr')

/-- What is under a temporary key, or about to be, is so after a handler has succeeded. -/
theorem Tainted.deliver (ht : Tainted ⟨st, r ::ₘ rest⟩) (hu : Uncollected ⟨st, r ::ₘ rest⟩)
    (hd : (machine X).relay r st = .ok eff) : Tainted ⟨eff.state, rest + eff.relays⟩ := by
  have hocc := (hu.delivered hd).1
  rcases ht with ho | ⟨r', hr', ht⟩
  · exact .inl (hocc (.inl ho))
  · rcases Multiset.mem_cons.mp hr' with rfl | hr'
    · exact .inl (hocc (.inr ht))
    · exact .inr ⟨r', Multiset.mem_add.mpr (.inl hr'), ht⟩

/-- The two handlers that the guard is about relay what will be written under a temporary key. -/
theorem tainted_of_not_barren (hd : (machine X).relay r st = .ok eff)
    (hg : ¬ Barren h ⟨st, r ::ₘ rest⟩ (.deliver r (.ok eff.value))) :
    Tainted ⟨eff.state, rest + eff.relays⟩ := by
  right
  cases delivered_of_ok hd with
  | lambda0 owner genes gender =>
    exact ⟨_, Multiset.mem_add.mpr (.inr (List.mem_singleton_self _)), Nat.le_of_not_lt hg⟩
  | lambda3 hm hs =>
    exact ⟨_, Multiset.mem_add.mpr (.inr (List.mem_singleton_self _)), trivial⟩
  | _ => exact absurd trivial hg

/-- A handler that fails meets the guard. -/
theorem barren_of_error {f : Fault} (hd : (machine X).relay r st = .error f) :
    Barren h ⟨st, r ::ₘ rest⟩ (.deliver r (.error f)) := by
  cases r with
  | lambda0 owner genes gender => cases hd
  | lambda3 scope mGenes m s gender => exact lambda3_error hd
  | _ => trivial

/-- A newborn is only refused where the counter is full, and then there are others. -/
theorem Tainted.failed (ht : Tainted ⟨st, r ::ₘ rest⟩) (hu : Uncollected ⟨st, r ::ₘ rest⟩)
    {f : Fault} (hd : (machine X).relay r st = .error f) : Tainted ⟨st, rest⟩ := by
  rcases ht with ho | ⟨r', hr', ht⟩
  · exact .inl ho
  · rcases Multiset.mem_cons.mp hr' with rfl | hr'
    · left
      cases r' with
      | lambda1 scope genes id => cases hd
      | lambda4 scope m s gender newGenes =>
        refine hu.counted (X.shardOf scope) fun hzero => lambda4_error hd ?_
        rw [show st.newBornNums (X.shardOf scope) = 0 from hzero]
        exact Nat.one_lt_two_pow (by decide)
      | _ => cases ht
    · exact .inr ⟨r', hr', ht⟩

end Steps

section Runs

variable {X : Chain A} {h h₂ : History A X.shardOrder}
  {c c₁ c₂ : Config (State A ℕ X.shardOrder) (Relay A X.shardOrder)}

/-- **Newborns are never collected**; and where one was stored or is on its way, it stays so. -/
theorem uncollected_of_run (hr : (machine X).Run Anything ⟨deployed A ℕ X.shardOrder, 0⟩ h c)
    (hcalls : ∀ q ∈ calls h, q.isOperation) :
    Uncollected c ∧
      ((machine X).Run Barren ⟨deployed A ℕ X.shardOrder, 0⟩ h c ∨ Tainted c) := by
  revert hcalls
  refine hr.invariant (I := fun h c => (∀ q ∈ calls h, q.isOperation) → Uncollected c ∧
    ((machine X).Run Barren ⟨deployed A ℕ X.shardOrder, 0⟩ h c ∨ Tainted c)) ?_ ?_ ?_ ?_ ?_
  · intro _
    exact ⟨⟨fun _ => rfl, fun r hr => absurd hr (Multiset.notMem_zero r),
      fun _ ht => absurd rfl ht⟩, .inl .nil⟩
  · intro h c q eff _ ih _ hq hcalls
    rw [calls_cons_call, List.forall_mem_cons] at hcalls
    obtain ⟨hu, hbarren⟩ := ih hcalls.2
    refine ⟨hu.call hcalls.1 hq, ?_⟩
    rcases hbarren with hrun | ht
    · exact .inl (.step hrun (.callOk hq) trivial)
    · exact .inr (ht.call hcalls.1 hq)
  · intro h c q f _ ih _ hq hcalls
    rw [calls_cons_call, List.forall_mem_cons] at hcalls
    obtain ⟨hu, hbarren⟩ := ih hcalls.2
    exact ⟨hu, hbarren.imp_left fun hrun => .step hrun (.callError hq) trivial⟩
  · intro h st r rest eff _ ih _ hd hcalls
    obtain ⟨hu, hbarren⟩ := ih hcalls
    refine ⟨hu.deliver hd, ?_⟩
    rcases hbarren with hrun | ht
    · by_cases hg : Barren h ⟨st, r ::ₘ rest⟩ (.deliver r (.ok eff.value))
      · exact .inl (.step hrun (.deliverOk rfl hd) hg)
      · exact .inr (tainted_of_not_barren hd hg)
    · exact .inr (ht.deliver hu hd)
  · intro h st r rest f _ ih _ hd hcalls
    obtain ⟨hu, hbarren⟩ := ih hcalls
    refine ⟨⟨hu.newBorns, fun r' hr' => hu.inFlight r' (Multiset.mem_cons_of_mem hr'),
      hu.counted⟩, ?_⟩
    rcases hbarren with hrun | ht
    · exact .inl (.step hrun (.deliverError rfl hd) (barren_of_error hd))
    · exact .inr (ht.failed hu hd)

/-- Where a barren run stands: there is no newborn, and no key is taken for a temporary one. -/
structure Clean (h : History A k) (c : Config (State A ℕ k) (Relay A k)) : Prop where
  /-- The list does not reach the temporary keys. -/
  length_le : c.state.allKitties.length ≤ 2 ^ 255
  /-- Nothing was born. -/
  births : births h = []
  /-- No entry is under a temporary key. -/
  entries : ∀ a key, 2 ^ 255 ≤ key → c.state.myKitties a key = none
  /-- None is on its way. -/
  inFlight : ∀ r ∈ c.inFlight, ¬ r.isTemporary
  /-- A matron is one of the list. -/
  matrons : ∀ scope m s gender, .lambda2 scope m s gender ∈ c.inFlight →
    m < c.state.allKitties.length

omit [DecidableEq A] in
/-- Nothing is born in a call. -/
theorem births_call (hb : births h = []) (q : Call A X.shardOrder) (v : Except Fault Unit) :
    births (.call q v :: h) = [] := by
  cases q with
  | finalize scope => rfl
  | _ => exact hb

/-- Writing under another key than a temporary one. -/
theorem Clean.put {st : State A ℕ X.shardOrder} {flight : Multiset (Relay A X.shardOrder)}
    (hc : Clean h ⟨st, flight⟩) {id : ℕ} (hid : id < 2 ^ 255) (scope : A) (new : Kitty ℕ) (a : A)
    {key : ℕ} (hkey : 2 ^ 255 ≤ key) : (st.put scope id new).myKitties a key = none := by
  rw [put_myKitties, if_neg fun heq => (hid.trans_le hkey).ne heq.2]
  exact hc.entries a key hkey

omit [DecidableEq A] in
/-- The relays of a handler, none of which is to `_relay_lambda_2`. -/
theorem Clean.flight {st : State A ℕ X.shardOrder} {r : Relay A X.shardOrder}
    {rest : Multiset (Relay A X.shardOrder)} (hc : Clean h ⟨st, r ::ₘ rest⟩)
    (new : List (Relay A X.shardOrder))
    (hnew : ∀ r' ∈ new, ¬ r'.isTemporary ∧ ∀ scope m s gender, .lambda2 scope m s gender ≠ r') :
    (∀ r' ∈ rest + ↑new, ¬ r'.isTemporary) ∧ ∀ scope m s gender,
      .lambda2 scope m s gender ∈ rest + (↑new : Multiset (Relay A X.shardOrder)) →
      m < st.allKitties.length := by
  refine ⟨forall_mem_add_coe.mpr ⟨fun r' hr' => ?_, fun r' hr' => (hnew r' hr').1⟩,
    fun scope m s gender hr' => ?_⟩
  · exact hc.inFlight r' (Multiset.mem_cons_of_mem hr')
  · rcases Multiset.mem_add.mp hr' with hr' | hr'
    · exact hc.matrons scope m s gender (Multiset.mem_cons_of_mem hr')
    · exact absurd rfl ((hnew _ hr').2 scope m s gender)

/-- A call of an operation. -/
theorem Clean.call {eff : Effect (State A ℕ X.shardOrder) (Relay A X.shardOrder) Unit}
    (hc : Clean h c) {q : Call A X.shardOrder} (hop : q.isOperation)
    (hq : (machine X).call q c.state = .ok eff) :
    Clean (.call q (.ok eff.value) :: h) ⟨eff.state, c.inFlight + eff.relays⟩ := by
  obtain ⟨hentries, -, -, hkitties, hrelays⟩ := called_of_operation hop hq
  refine ⟨by rw [hkitties]; exact hc.length_le, births_call hc.births q _, fun a key hkey => ?_,
    forall_mem_add_coe.mpr ⟨hc.inFlight, fun r hr => (hrelays r hr).2.1⟩,
    fun scope m s gender hr => ?_⟩
  · rw [hentries]
    exact hc.entries a key hkey
  · rw [hkitties]
    rcases Multiset.mem_add.mp hr with hr | hr
    · exact hc.matrons scope m s gender hr
    · exact (hrelays _ hr).2.2 scope m s gender rfl

/-- A handler that succeeds and meets the guard. -/
theorem Clean.deliver {st : State A ℕ X.shardOrder} {r : Relay A X.shardOrder}
    {rest : Multiset (Relay A X.shardOrder)}
    {eff : Effect (State A ℕ X.shardOrder) (Relay A X.shardOrder) Unit}
    (hc : Clean h ⟨st, r ::ₘ rest⟩) (hu : Uncollected ⟨st, r ::ₘ rest⟩)
    (hg : Barren h ⟨st, r ::ₘ rest⟩ (.deliver r (.ok eff.value)))
    (hd : (machine X).relay r st = .ok eff) :
    Clean (.deliver r (.ok eff.value) :: h) ⟨eff.state, rest + eff.relays⟩ := by
  have hr : ¬ r.isTemporary := hc.inFlight r (Multiset.mem_cons_self r rest)
  have hnew : ¬ r.isRegistering := hu.inFlight r (Multiset.mem_cons_self r rest)
  cases delivered_of_ok hd with
  | lambda0 owner genes gender =>
    have hlt : st.allKitties.length < 2 ^ 255 := hg
    obtain ⟨htemp, hmatrons⟩ := hc.flight [.lambda1 owner genes st.allKitties.length]
      (by simpa [Relay.isTemporary] using hlt)
    refine ⟨?_, hc.births, hc.entries, htemp, fun scope m s gender hr' => ?_⟩
    · rw [List.length_append]
      exact hlt
    · rw [List.length_append]
      exact (hmatrons scope m s gender hr').trans (Nat.lt_succ_self _)
  | lambda1 scope genes id =>
    obtain ⟨htemp, hmatrons⟩ := hc.flight [] (by simp)
    have hid : id < 2 ^ 255 := Nat.lt_of_not_le hr
    exact ⟨hc.length_le, hc.births, fun a _ hkey => hc.put hid scope _ a hkey, htemp, hmatrons⟩
  | @lambda2 scope m s gender sire hs =>
    obtain ⟨htemp, hmatrons⟩ :=
      hc.flight [.lambda3 sire.owner (st.read scope m).genes m s gender]
        (by simp [Relay.isTemporary])
    have hm : m < 2 ^ 255 :=
      (hc.matrons scope m s gender (Multiset.mem_cons_self _ rest)).trans_le hc.length_le
    exact ⟨hc.length_le, hc.births, fun a _ hkey => hc.put hm scope _ a hkey, htemp, hmatrons⟩
  | lambda3 hm hs => exact absurd ⟨hm, hs⟩ hg
  | lambda4 hid hroom => exact absurd trivial hr
  | lambda5 =>
    obtain ⟨htemp, hmatrons⟩ := hc.flight ((List.finRange (2 ^ X.shardOrder)).map .lambda6)
      (by simp [Relay.isTemporary])
    exact ⟨hc.length_le, hc.births, hc.entries, htemp, hmatrons⟩
  | @lambda6 shard hsome => exact absurd (hu.newBorns shard) hsome
  | lambda6None hnone =>
    obtain ⟨htemp, hmatrons⟩ := hc.flight [] (by simp)
    exact ⟨hc.length_le, hc.births, hc.entries, htemp, hmatrons⟩
  | lambda7 addresses => exact absurd trivial hnew
  | lambda8 scope i id => exact absurd trivial hnew

/-- A barren run stays clean. -/
theorem clean_of_run (hr : (machine X).Run Barren ⟨deployed A ℕ X.shardOrder, 0⟩ h c)
    (hcalls : ∀ q ∈ calls h, q.isOperation) : Clean h c := by
  revert hcalls
  refine hr.invariant (I := fun h c => (∀ q ∈ calls h, q.isOperation) → Clean h c) ?_ ?_ ?_ ?_ ?_
  · intro _
    exact ⟨Nat.zero_le _, rfl, fun _ _ _ => rfl, fun r hr => absurd hr (Multiset.notMem_zero r),
      fun _ _ _ _ hr => absurd hr (Multiset.notMem_zero _)⟩
  · intro h c q eff _ ih _ hq hcalls
    rw [calls_cons_call, List.forall_mem_cons] at hcalls
    exact (ih hcalls.2).call hcalls.1 hq
  · intro h c q f _ ih _ _ hcalls
    rw [calls_cons_call, List.forall_mem_cons] at hcalls
    have hc := ih hcalls.2
    exact ⟨hc.length_le, births_call hc.births q _, hc.entries, hc.inFlight, hc.matrons⟩
  · intro h st r rest eff hrun ih hg hd hcalls
    obtain ⟨hu, -⟩ := uncollected_of_run (hrun.mono fun _ _ _ _ => trivial) hcalls
    exact (ih hcalls).deliver hu hg hd
  · intro h st r rest f _ ih _ _ hcalls
    have hc := ih hcalls
    refine ⟨hc.length_le, ?_, hc.entries,
      fun r' hr' => hc.inFlight r' (Multiset.mem_cons_of_mem hr'),
      fun scope m s gender hr' => hc.matrons scope m s gender (Multiset.mem_cons_of_mem hr')⟩
    cases r <;> exact hc.births

/-! ### `finalize` -/

/-- Where `finalize` stands: it has changed nothing and is still asking the shards. -/
structure Finalizing (st₀ : State A ℕ k) (c : Config (State A ℕ k) (Relay A k)) : Prop where
  /-- The list is as it was. -/
  kitties : c.state.allKitties = st₀.allKitties
  /-- No shard knows of a newborn. -/
  newBorns : ∀ t, c.state.newBorns t = []
  /-- The maps are as they were. -/
  entries : c.state.myKitties = st₀.myKitties
  /-- The shards are being asked. -/
  inFlight : ∀ r ∈ c.inFlight, r = .lambda5 ∨ ∃ shard, r = .lambda6 shard

theorem finalizing_of_run {st₀ : State A ℕ X.shardOrder} (h₁ : Finalizing st₀ c₁)
    (hr : (machine X).Run Delivering c₁ h₂ c₂) : Finalizing st₀ c₂ := by
  refine hr.invariant (I := fun _ c => Finalizing st₀ c) h₁ ?_ ?_ ?_ ?_
  · intro h c q eff _ ih hg hq
    cases q with
    | newBlock height =>
      cases hq
      dsimp only
      rw [Multiset.coe_nil, add_zero]
      exact ⟨ih.kitties, ih.newBorns, ih.entries, ih.inFlight⟩
    | _ => exact hg.elim
  · intro h c q f _ ih _ _
    exact ih
  · intro h st r rest eff _ ih _ hd
    have hrest : ∀ r' ∈ rest, r' = .lambda5 ∨ ∃ shard, r' = .lambda6 shard :=
      fun r' hr' => ih.inFlight r' (Multiset.mem_cons_of_mem hr')
    rcases ih.inFlight r (Multiset.mem_cons_self r rest) with rfl | ⟨shard, rfl⟩
    · cases hd
      refine ⟨ih.kitties, ih.newBorns, ih.entries, fun r' hr' => ?_⟩
      rcases Multiset.mem_add.mp hr' with hr' | hr'
      · exact hrest r' hr'
      · obtain ⟨shard, -, rfl⟩ := List.mem_map.mp (Multiset.mem_coe.mp hr')
        exact .inr ⟨shard, rfl⟩
    · cases delivered_of_ok hd with
      | lambda6 hsome => exact absurd (ih.newBorns shard) hsome
      | lambda6None _ =>
        refine ⟨ih.kitties, ih.newBorns, ih.entries, ?_⟩
        rw [Multiset.coe_nil, add_zero]
        exact hrest
  · intro h st r rest f _ ih _ _
    exact ⟨ih.kitties, ih.newBorns, ih.entries,
      fun r' hr' => ih.inFlight r' (Multiset.mem_cons_of_mem hr')⟩

/-- **When `finalize` registers the newborns.** Operations are called and their relays delivered, in
any order, until none is in flight; then `finalize` is called, and its relays are delivered. The
newborns since the last `finalize` are registered, each held by its owner under its id, with no
kitty overwritten and no temporary key left, if and only if there never were newborns: in every
`_relay_lambda_3` of the run a parent had the largest value of the type for its genes. -/
theorem registers_iff (hr : (machine X).Run Anything ⟨deployed A ℕ X.shardOrder, 0⟩ h c)
    (hcalls : ∀ q ∈ calls h, q.isOperation) (hq : c.inFlight = 0) {scope : A}
    {v : Except Fault Unit} (hs : (machine X).Step c (.call (.finalize scope) v) c₁)
    (hr₂ : (machine X).Run Delivering c₁ h₂ c₂) :
    Registers (births h) c.state c₂.state ↔
      (machine X).Run Barren ⟨deployed A ℕ X.shardOrder, 0⟩ h c := by
  obtain ⟨hu, hbarren⟩ := uncollected_of_run hr hcalls
  obtain ⟨-, rfl⟩ := hs.of_call_ok (M := machine X) rfl
  have h₁ : Finalizing c.state ⟨c.state, c.inFlight +
      ↑([.lambda5] : List (Relay A X.shardOrder))⟩ := by
    refine ⟨rfl, hu.newBorns, rfl, fun r hr => ?_⟩
    rw [hq] at hr
    exact .inl (by simpa using hr)
  have hf := finalizing_of_run h₁ hr₂
  constructor
  · intro hreg
    refine hbarren.resolve_right fun ht => ?_
    obtain ⟨a, key, hkey, hsome⟩ := ht.occupied hq
    rw [← hf.entries, hreg.cleared a key hkey] at hsome
    cases hsome
  · intro hrun
    have hc := clean_of_run hrun hcalls
    rw [hc.births]
    refine ⟨by rw [hf.kitties]; rfl, ⟨[], List.nodup_nil, by simp, .nil⟩, ?_, ?_⟩
    · intro a key kitty _ hk
      rw [hf.entries, hk]
    · intro a key hkey
      rw [hf.entries]
      exact hc.entries a key hkey

end Runs

/-- Two kitties are bred whose genes have no mixture, and `finalize` has nothing to register. -/
theorem registers_none_born :
    ∃ (h : History (Fin 3) 0) (c c₁ : Config (State (Fin 3) ℕ 0) (Relay (Fin 3) 0))
      (h₂ : History (Fin 3) 0) (c₂ : Config (State (Fin 3) ℕ 0) (Relay (Fin 3) 0)),
      (machine threeAddresses).Run Anything ⟨deployed (Fin 3) ℕ 0, 0⟩ h c ∧
      calls h = [.breed 1 0 1 true, .mint 1 9 false, .mint 0 (2 ^ 256 - 1) true] ∧
      c.inFlight = 0 ∧
      (machine threeAddresses).Step c (.call (.finalize 1) (.ok ())) c₁ ∧
      (machine threeAddresses).Run Delivering c₁ h₂ c₂ ∧ c₂.inFlight = 0 ∧
      Registers (births h) c.state c₂.state := by
  obtain ⟨⟨h, c⟩, hx, hcalls, hq, eff, heff, ⟨h₂, c₂⟩, hx₂, hq₂⟩ :
      ∃ r ∈ (machine threeAddresses).exec Barren ⟨deployed (Fin 3) ℕ 0, 0⟩
        [.call (.mint 0 (2 ^ 256 - 1) true), .call (.mint 1 9 false),
          .deliver (.lambda0 0 (2 ^ 256 - 1) true), .deliver (.lambda0 1 9 false),
          .deliver (.lambda1 1 9 1), .deliver (.lambda1 0 (2 ^ 256 - 1) 0),
          .call (.breed 1 0 1 true), .deliver (.lambda2 0 0 1 true),
          .deliver (.lambda3 1 (2 ^ 256 - 1) 0 1 true)],
        calls r.1 = [.breed 1 0 1 true, .mint 1 9 false, .mint 0 (2 ^ 256 - 1) true] ∧
        r.2.inFlight = 0 ∧
        ∃ eff ∈ ((machine threeAddresses).call (.finalize 1) r.2.state).toOption,
        ∃ r₂ ∈ (machine threeAddresses).exec Delivering ⟨eff.state, r.2.inFlight + eff.relays⟩
          [.deliver .lambda5, .deliver (.lambda6 0)], r₂.2.inFlight = 0 := by decide
  have hr := Machine.exec_run hx
  have hr' : (machine threeAddresses).Run Anything ⟨deployed (Fin 3) ℕ 0, 0⟩ h c :=
    hr.mono fun _ _ _ _ => trivial
  have hs := Machine.step_of_mem_toOption _ heff
  have hr₂ := Machine.exec_run hx₂
  exact ⟨h, c, _, h₂, c₂, hr', hcalls, hq, hs, hr₂, hq₂,
    (registers_iff hr' (by rw [hcalls]; decide) hq hs hr₂).mpr hr⟩

/-- One newborn, and `finalize` is called: the list does not grow, and the newborn is still under
its temporary key. -/
theorem newborn_not_registered :
    ∃ (h : History (Fin 3) 0) (c c₁ : Config (State (Fin 3) ℕ 0) (Relay (Fin 3) 0))
      (h₂ : History (Fin 3) 0) (c₂ : Config (State (Fin 3) ℕ 0) (Relay (Fin 3) 0)),
      (machine threeAddresses).Run Anything ⟨deployed (Fin 3) ℕ 0, 0⟩ h c ∧
      calls h = [.breed 1 0 1 true, .mint 1 9 false, .mint 0 4 true] ∧ c.inFlight = 0 ∧
      (machine threeAddresses).Step c (.call (.finalize 1) (.ok ())) c₁ ∧
      (machine threeAddresses).Run Delivering c₁ h₂ c₂ ∧ c₂.inFlight = 0 ∧
      births h = [⟨1, 0, 1, true, 6⟩] ∧ c.state.allKitties.length = 2 ∧
      c₂.state.allKitties.length = 2 ∧
      c₂.state.myKitties 1 (2 ^ 255) = some ⟨2 ^ 255, 6, 0, 1, 0⟩ ∧
      ¬ Registers (births h) c.state c₂.state := by
  obtain ⟨⟨h, c⟩, hx, hcalls, hq, hbirths, hlen, eff, heff, ⟨h₂, c₂⟩, hx₂, hq₂, hlen₂, hleft⟩ :
      ∃ r ∈ (machine threeAddresses).exec Anything ⟨deployed (Fin 3) ℕ 0, 0⟩
        [.call (.mint 0 4 true), .call (.mint 1 9 false), .deliver (.lambda0 0 4 true),
          .deliver (.lambda0 1 9 false), .deliver (.lambda1 1 9 1), .deliver (.lambda1 0 4 0),
          .call (.breed 1 0 1 true), .deliver (.lambda2 0 0 1 true),
          .deliver (.lambda3 1 4 0 1 true), .deliver (.lambda4 1 0 1 true 6)],
        calls r.1 = [.breed 1 0 1 true, .mint 1 9 false, .mint 0 4 true] ∧ r.2.inFlight = 0 ∧
        births r.1 = [⟨1, 0, 1, true, 6⟩] ∧ r.2.state.allKitties.length = 2 ∧
        ∃ eff ∈ ((machine threeAddresses).call (.finalize 1) r.2.state).toOption,
        ∃ r₂ ∈ (machine threeAddresses).exec Delivering ⟨eff.state, r.2.inFlight + eff.relays⟩
          [.deliver .lambda5, .deliver (.lambda6 0)], r₂.2.inFlight = 0 ∧
          r₂.2.state.allKitties.length = 2 ∧
          r₂.2.state.myKitties 1 (2 ^ 255) = some ⟨2 ^ 255, 6, 0, 1, 0⟩ := by decide
  refine ⟨h, c, _, h₂, c₂, Machine.exec_run hx, hcalls, hq, Machine.step_of_mem_toOption _ heff,
    Machine.exec_run hx₂, hq₂, hbirths, hlen, hlen₂, hleft, fun hreg => ?_⟩
  have hgrown : 2 = 2 + 1 := hlen₂.symm.trans
    (hreg.grown.trans (congrArg₂ (· + ·) hlen (congrArg List.length hbirths)))
  cases hgrown

end KittyBreeding

end Crystality

end RelayContracts
