import RelayContracts.Preda.KittyGenes
import RelayContracts.Preda.KittyUint256

/-!
# The two kitty contracts compared

`Kitty.prd` and `Kitty_uint256.prd` on the same script: mints, then breeds, each with its relays
delivered before the next call, and in the end a registration on every shard. The two contracts
should end with the same list of kitties and the same kitties with every address (`Agree`).

They do if and only if no breed of the script is accepted (`variants_agree_iff`). Which breeds are
accepted can be read off the script (`Fertile`), and is the same for both. But the newborns of
`Kitty_uint256.prd` are never entered for registration, so `allKitties` has only the minted kitties
there, and one more for each accepted breed in `Kitty.prd`.

## Main definitions

* `mintCalls`, `entered` — what a list of calls says about the minted kitties
* `Fertile` — the breeds that are accepted
* `Script`, `InTime`, `EndsIn` — the scripts, and the states they end in
* `Agree`

## Main results

* `variants_agree_iff`
* `variants_disagree`
-/

namespace RelayContracts

namespace Preda

namespace KittyBreeding

open RelayMachine

variable {A γ δ : Type} {k : ℕ}

/-! ### What the calls say -/

/-- The same call with genes of another type. -/
def Call.map (f : γ → δ) : Call A γ k → Call A δ k
  | .mint genes gender owner => .mint (f genes) gender owner
  | .breed initiator m s gender => .breed initiator m s gender
  | .registerNewBorns shard => .registerNewBorns shard
  | .newBlock height => .newBlock height

/-- The same mint with genes of another type. -/
def Minted.map (f : γ → δ) (x : Minted A γ) : Minted A δ := ⟨f x.genes, x.gender, x.owner⟩

/-- The mint that a call makes. -/
def mintCall? : Call A γ k → Option (Minted A γ)
  | .mint genes gender owner => some ⟨genes, gender, owner⟩
  | _ => none

/-- The mints of a list of calls, oldest first. -/
def mintCalls (ks : List (Call A γ k)) : List (Minted A γ) := (ks.filterMap mintCall?).reverse

/-- The block height and the list `allKitties` after a list of calls, if nothing is registered. -/
def entered : List (Call A γ k) → ℕ × List (KittyInfo A)
  | [] => (0, [])
  | .mint _ gender owner :: ks =>
    ((entered ks).1, (entered ks).2 ++ [⟨gender, (entered ks).1, owner⟩])
  | .newBlock height :: ks => (height, (entered ks).2)
  | _ :: ks => entered ks

/-- A breed of two minted kitties, the first of them a matron. -/
def Fertile (xs : List (Minted A γ)) (m s : ℕ) : Prop :=
  (∃ x, xs[m]? = some x ∧ x.gender = true) ∧ s < xs.length

theorem mintCalls_cons (c : Call A γ k) (ks : List (Call A γ k)) :
    mintCalls (c :: ks) = mintCalls ks ++ (mintCall? c).toList := by
  cases hc : mintCall? c <;> simp [mintCalls, hc]

theorem mintCalls_map (f : γ → δ) (ks : List (Call A γ k)) :
    mintCalls (ks.map (Call.map f)) = (mintCalls ks).map (Minted.map f) := by
  induction ks with
  | nil => rfl
  | cons c ks ih =>
    rw [List.map_cons, mintCalls_cons, mintCalls_cons, ih, List.map_append]
    cases c <;> rfl

theorem entered_map (f : γ → δ) (ks : List (Call A γ k)) :
    entered (ks.map (Call.map f)) = entered ks := by
  induction ks with
  | nil => rfl
  | cons c ks ih => cases c <;> simp [Call.map, entered, ih]

/-- The kitties entered are those minted. -/
theorem map_entered (ks : List (Call A γ k)) :
    (entered ks).2.map (fun n => (n.gender, n.owner)) =
      (mintCalls ks).map fun x => (x.gender, x.owner) := by
  induction ks with
  | nil => rfl
  | cons c ks ih =>
    rw [mintCalls_cons]
    cases c <;> simp [entered, mintCall?, ih]

theorem length_entered (ks : List (Call A γ k)) :
    (entered ks).2.length = (mintCalls ks).length := by
  simpa using congrArg List.length (map_entered ks)

theorem fertile_map (f : γ → δ) (xs : List (Minted A γ)) (m s : ℕ) :
    Fertile (xs.map (Minted.map f)) m s ↔ Fertile xs m s := by
  simp only [Fertile, List.getElem?_map, List.length_map, Option.map_eq_some_iff]
  constructor
  · rintro ⟨⟨_, ⟨x, hx, rfl⟩, hg⟩, hs⟩
    exact ⟨⟨x, hx, hg⟩, hs⟩
  · rintro ⟨⟨x, hx, hg⟩, hs⟩
    exact ⟨⟨_, ⟨x, hx, rfl⟩, hg⟩, hs⟩

/-- The kitties with an address, by their genes and parents. -/
def holdings (st : State A γ k) (a : A) : Set (γ × ℕ × ℕ) :=
  {l | ∃ id x, st.myKitties a id = some x ∧ x.lineage = l}

/-! ### Scripts -/

/-- A script: in the end registrations, on every shard, before that breeds, and first mints; the
block may change anywhere. As a list of calls it has the latest first. -/
structure Script (A γ : Type) (k : ℕ) where
  /-- The registrations. -/
  registering : List (Call A γ k)
  /-- The breeds. -/
  breeding : List (Call A γ k)
  /-- The mints. -/
  minting : List (Call A γ k)
  /-- Every shard is registered. -/
  registers : ∀ shard, .registerNewBorns shard ∈ registering
  /-- The last part has no mints and no breeds. -/
  registering_only : ∀ c ∈ registering,
    (∃ shard, c = .registerNewBorns shard) ∨ ∃ height, c = .newBlock height
  /-- The middle part has no mints and no registrations. -/
  breeding_only : ∀ c ∈ breeding,
    (∃ a m s gender, c = .breed a m s gender) ∨ ∃ height, c = .newBlock height
  /-- The first part has no breeds and no registrations. -/
  minting_only : ∀ c ∈ minting,
    (∃ genes gender owner, c = .mint genes gender owner) ∨ ∃ height, c = .newBlock height

/-- The part of a list from an element on that is not in its first half. -/
theorem suffix_of_notMem {α : Type} {a : α} {l xs ys : List α} (hsuffix : a :: l <:+ xs ++ ys)
    (ha : a ∉ xs) : a :: l <:+ ys := by
  induction xs with
  | nil => exact hsuffix
  | cons x xs ih =>
    rcases List.suffix_cons_iff.mp hsuffix with heq | hsuffix
    · obtain ⟨rfl, -⟩ := List.cons.inj heq
      exact absurd List.mem_cons_self ha
    · exact ih hsuffix fun hmem => ha (List.mem_cons_of_mem x hmem)

/-- The part of a list from an element on that is not in its second half. -/
theorem exists_append_of_notMem {α : Type} {a : α} {l xs ys : List α}
    (hsuffix : a :: l <:+ xs ++ ys) (ha : a ∉ ys) : ∃ zs, zs <:+ xs ∧ a :: l = zs ++ ys := by
  induction xs with
  | nil => exact absurd (hsuffix.subset List.mem_cons_self) ha
  | cons x xs ih =>
    rcases List.suffix_cons_iff.mp hsuffix with heq | hsuffix
    · exact ⟨x :: xs, List.suffix_rfl, heq⟩
    · obtain ⟨zs, hzs, heq⟩ := ih hsuffix
      exact ⟨zs, hzs.trans (List.suffix_cons x xs), heq⟩

namespace Script

variable (S : Script A γ k)

/-- The calls of a script. -/
def calls : List (Call A γ k) := S.registering ++ (S.breeding ++ S.minting)

/-- The same script with genes of another type. -/
def map (f : γ → δ) : Script A δ k where
  registering := S.registering.map (Call.map f)
  breeding := S.breeding.map (Call.map f)
  minting := S.minting.map (Call.map f)
  registers shard := List.mem_map.mpr ⟨_, S.registers shard, rfl⟩
  registering_only := by
    intro _ hmem
    obtain ⟨c, hc, rfl⟩ := List.mem_map.mp hmem
    rcases S.registering_only c hc with ⟨shard, rfl⟩ | ⟨height, rfl⟩
    · exact .inl ⟨shard, rfl⟩
    · exact .inr ⟨height, rfl⟩
  breeding_only := by
    intro _ hmem
    obtain ⟨c, hc, rfl⟩ := List.mem_map.mp hmem
    rcases S.breeding_only c hc with ⟨a, m, s, gender, rfl⟩ | ⟨height, rfl⟩
    · exact .inl ⟨a, m, s, gender, rfl⟩
    · exact .inr ⟨height, rfl⟩
  minting_only := by
    intro _ hmem
    obtain ⟨c, hc, rfl⟩ := List.mem_map.mp hmem
    rcases S.minting_only c hc with ⟨genes, gender, owner, rfl⟩ | ⟨height, rfl⟩
    · exact .inl ⟨f genes, gender, owner, rfl⟩
    · exact .inr ⟨height, rfl⟩

theorem calls_map (f : γ → δ) : (S.map f).calls = S.calls.map (Call.map f) := by
  simp [calls, map]

theorem breed_mem_calls_map (f : γ → δ) {a : A} {m s : ℕ} {gender : Bool} :
    .breed a m s gender ∈ (S.map f).calls ↔ .breed a m s gender ∈ S.calls := by
  rw [calls_map, List.mem_map]
  constructor
  · rintro ⟨c, hc, heq⟩
    cases c <;> cases heq
    exact hc
  · intro hc
    exact ⟨_, hc, rfl⟩

variable {S}

/-- Nothing is registered before a call that is not in the last part. -/
theorem register_notMem {c : Call A γ k} {l : List (Call A γ k)} (hl : c :: l <:+ S.calls)
    (hc : c ∉ S.registering) (shard : Fin (2 ^ k)) : .registerNewBorns shard ∉ l := by
  intro hmem
  have hmem := (suffix_of_notMem hl hc).subset (List.mem_cons_of_mem c hmem)
  rcases List.mem_append.mp hmem with hmem | hmem
  · rcases S.breeding_only _ hmem with ⟨_, _, _, _, heq⟩ | ⟨_, heq⟩ <;> cases heq
  · rcases S.minting_only _ hmem with ⟨_, _, _, heq⟩ | ⟨_, heq⟩ <;> cases heq

theorem mint_notMem_registering {genes : γ} {gender : Bool} {owner : A} :
    .mint genes gender owner ∉ S.registering := by
  intro hmem
  rcases S.registering_only _ hmem with ⟨_, heq⟩ | ⟨_, heq⟩ <;> cases heq

theorem breed_notMem_registering {a : A} {m s : ℕ} {gender : Bool} :
    .breed a m s gender ∉ S.registering := by
  intro hmem
  rcases S.registering_only _ hmem with ⟨_, heq⟩ | ⟨_, heq⟩ <;> cases heq

theorem mintCalls_append {xs ys : List (Call A γ k)} (hxs : ∀ c ∈ xs, mintCall? c = none) :
    mintCalls (xs ++ ys) = mintCalls ys := by
  rw [mintCalls, List.filterMap_append, List.filterMap_eq_nil_iff.mpr hxs, List.nil_append]
  rfl

theorem mintCall?_of_mem_breeding {c : Call A γ k} (hc : c ∈ S.breeding) : mintCall? c = none := by
  rcases S.breeding_only c hc with ⟨_, _, _, _, rfl⟩ | ⟨_, rfl⟩ <;> rfl

theorem mintCall?_of_mem_registering {c : Call A γ k} (hc : c ∈ S.registering) :
    mintCall? c = none := by
  rcases S.registering_only c hc with ⟨_, rfl⟩ | ⟨_, rfl⟩ <;> rfl

/-- Everything is minted before a breed. -/
theorem mintCalls_before_breed {a : A} {m s : ℕ} {gender : Bool} {l : List (Call A γ k)}
    (hl : .breed a m s gender :: l <:+ S.calls) : mintCalls l = mintCalls S.calls := by
  have hmint : .breed a m s gender ∉ S.minting := by
    intro hmem
    rcases S.minting_only _ hmem with ⟨_, _, _, heq⟩ | ⟨_, heq⟩ <;> cases heq
  obtain ⟨zs, hzs, heq⟩ :=
    exists_append_of_notMem (suffix_of_notMem hl S.breed_notMem_registering) hmint
  calc mintCalls l = mintCalls (.breed a m s gender :: l) := by
        rw [mintCalls_cons]
        exact (List.append_nil _).symm
    _ = mintCalls S.minting := by
        rw [heq, mintCalls_append fun c hc => S.mintCall?_of_mem_breeding (hzs.subset hc)]
    _ = mintCalls S.calls := by
        rw [calls, mintCalls_append fun c hc => S.mintCall?_of_mem_registering hc,
          mintCalls_append fun c hc => S.mintCall?_of_mem_breeding hc]

end Script

/-! ### Runs of either contract -/

/-- The guard that has relays delivered in time: all of them before a breed, those of the mints and
breeds before a registration. -/
def InTime (_ : History A γ k) (c : Config (State A γ k) (Relay A γ)) :
    Event (Call A γ k) (Relay A γ) Unit Fault → Prop
  | .call (.breed _ _ _ _) _ => c.inFlight = 0
  | .call (.registerNewBorns _) _ => ∀ r ∈ c.inFlight, ¬ r.OfBreeding
  | _ => True

instance [DecidableEq A] [DecidableEq γ] (h : History A γ k) (c : Config (State A γ k) (Relay A γ))
    (e : Event (Call A γ k) (Relay A γ) Unit Fault) : Decidable (InTime h c e) :=
  match e with
  | .call (.breed _ _ _ _) _ => inferInstanceAs (Decidable (c.inFlight = 0))
  | .call (.registerNewBorns _) _ => inferInstanceAs (Decidable (∀ r ∈ c.inFlight, ¬ r.OfBreeding))
  | .call (.mint _ _ _) _ | .call (.newBlock _) _ | .deliver _ _ => isTrue trivial

section Runs

variable [DecidableEq A] [Zero γ] {X : Chain A} {V : Variant A γ X.shardOrder}
  {G : History A γ X.shardOrder → Config (State A γ X.shardOrder) (Relay A γ) →
    Event (Call A γ X.shardOrder) (Relay A γ) Unit Fault → Prop}
  {h : History A γ X.shardOrder} {c : Config (State A γ X.shardOrder) (Relay A γ)}
  {S : Script A γ X.shardOrder}

omit [DecidableEq A] [Zero γ] in
theorem inTime_of_eager {e : Event (Call A γ X.shardOrder) (Relay A γ) Unit Fault}
    (he : Eager h c e) : InTime h c e := by
  cases e with
  | call k r =>
    have hq : c.inFlight = 0 := he
    cases k with
    | breed => exact hq
    | registerNewBorns => exact fun r hr => absurd (hq ▸ hr) (Multiset.notMem_zero r)
    | mint | newBlock => trivial
  | deliver => trivial

/-- A mint does not fail. -/
theorem mints_eq_mintCalls (hr : (machine X V).Run G ⟨deployed A γ X.shardOrder, 0⟩ h c) :
    mints h = mintCalls (calls h) := by
  refine hr.invariant (I := fun h _ => mints h = mintCalls (calls h)) rfl ?_ ?_ ?_ ?_
  · intro h c k eff _ ih _ _
    rw [mints_cons, calls_cons_call, mintCalls_cons, ih]
    cases k <;> rfl
  · intro h c k f _ ih _ hk
    rw [mints_cons, calls_cons_call, mintCalls_cons, ih]
    cases k with
    | mint => cases hk
    | _ => rfl
  · intro h st r rest eff _ ih _ _
    exact ih
  · intro h st r rest f _ ih _ _
    exact ih

/-- As long as nothing is collected, `allKitties` has the minted kitties. -/
theorem entered_of_run
    (hr : (machine X V).Run (fun _ c _ => ∀ r ∈ c.inFlight, r.OfBreeding)
      ⟨deployed A γ X.shardOrder, 0⟩ h c) :
    (c.state.height, c.state.allKitties) = entered (calls h) := by
  refine hr.invariant (I := fun h c => (c.state.height, c.state.allKitties) = entered (calls h)) rfl
    ?_ ?_ ?_ ?_
  · intro h c k eff _ ih _ hk
    rw [calls_cons_call]
    cases called_of_ok hk with
    | mint | newBlock => rw [entered, ← ih]
    | breed | register | registerNone => exact ih
  · intro h c k f _ ih _ hk
    cases k with
    | mint | newBlock => cases hk
    | breed | registerNewBorns => exact ih
  · intro h st r rest eff _ ih hg hk
    have hbr := hg r (Multiset.mem_cons_self r rest)
    cases delivered_of_ok hk with
    | storeMinted | breedMatron | breedSire => exact ih
    | storeNewBorn hid hent =>
      obtain ⟨hheight, hall, -⟩ := V.enter_frame hent
      rw [calls_cons_deliver, ← ih, hheight, hall]
      rfl
    | collectNewBorns | registerNewBorn => exact hbr.elim
  · intro h st r rest f _ ih _ _
    exact ih

theorem noRegister_of_calls (hr : (machine X V).Run G ⟨deployed A γ X.shardOrder, 0⟩ h c)
    (hno : ∀ shard, .registerNewBorns shard ∉ calls h) :
    (machine X V).Run NoRegister ⟨deployed A γ X.shardOrder, 0⟩ h c := by
  refine hr.within.mono fun h' c' e he => ?_
  cases e with
  | call k r =>
    cases k with
    | registerNewBorns shard =>
      exact hno shard (mem_calls.mpr ⟨r, he.2.subset List.mem_cons_self⟩)
    | _ => trivial
  | deliver => trivial

omit [DecidableEq A] [Zero γ] in
/-- Whether a breed is accepted depends on the genders of the kitties there are. -/
theorem breed_eq_ok_iff {st : State A γ k} {xs : List (Minted A γ)} {a : A} {m s : ℕ}
    {gender : Bool}
    (hst : st.allKitties.map (fun n => (n.gender, n.owner)) = xs.map fun x => (x.gender, x.owner)) :
    (∃ eff, breed a m s gender st = .ok eff) ↔ Fertile xs m s := by
  have hlen : st.allKitties.length = xs.length := by simpa using congrArg List.length hst
  have hm : (st.allKitties[m]?).map (fun n => (n.gender, n.owner)) =
      (xs[m]?).map fun x => (x.gender, x.owner) := by
    rw [← List.getElem?_map, ← List.getElem?_map, hst]
  constructor
  · rintro ⟨eff, heff⟩
    cases called_of_breed heff with
    | breed hmatron hs hg =>
      rw [hmatron] at hm
      obtain ⟨x, hx, heq⟩ := Option.map_eq_some_iff.mp hm.symm
      exact ⟨⟨x, hx, (Prod.mk.inj heq).1.trans hg⟩, hlen ▸ hs⟩
  · rintro ⟨⟨x, hx, hg⟩, hs⟩
    rw [hx] at hm
    obtain ⟨matron, hmatron, heq⟩ := Option.map_eq_some_iff.mp hm
    have hlt := (List.getElem?_eq_some_iff.mp hmatron).1
    rw [breed, if_pos hlt, if_pos (hlen ▸ hs), hmatron]
    dsimp only
    rw [if_pos ((Prod.mk.inj heq).1.trans hg)]
    exact ⟨_, rfl⟩

/-- **Which breeds are accepted**: the fertile ones, in either contract. -/
theorem accepted_iff_fertile (hr : (machine X V).Run G ⟨deployed A γ X.shardOrder, 0⟩ h c)
    (hcalls : calls h <:+ S.calls) {a : A} {m s : ℕ} {gender : Bool} {r : Except Fault Unit}
    (he : .call (.breed a m s gender) r ∈ h) : r = .ok () ↔ Fertile (mintCalls S.calls) m s := by
  induction hr with
  | nil => cases he
  | @step h c c' e hr hs hg ih =>
    have hbefore : calls h <:+ S.calls := by
      cases e with
      | call k v => exact (List.suffix_cons k (calls h)).trans hcalls
      | deliver => exact hcalls
    rcases List.mem_cons.mp he with rfl | he
    · have hno := noRegister_of_calls hr (Script.register_notMem hcalls S.breed_notMem_registering)
      have hent := entered_of_run (hno.mono_of_run fun hr _ _ => ofBreeding_of_run hr)
      have hst := map_entered (calls h)
      rw [← hent, Script.mintCalls_before_breed hcalls] at hst
      rw [← breed_eq_ok_iff (a := a) (s := s) hst]
      cases hs with
      | callOk hk => exact ⟨fun _ => ⟨_, hk⟩, fun _ => rfl⟩
      | callError hk =>
        constructor
        · rintro ⟨⟩
        · rintro ⟨eff, heff⟩
          cases heff.symm.trans hk
    · exact ih hbefore he

theorem acceptedBreeds_eq_nil_iff (hr : (machine X V).Run G ⟨deployed A γ X.shardOrder, 0⟩ h c)
    (hcalls : calls h = S.calls) : acceptedBreeds h = [] ↔
      ∀ a m s gender, .breed a m s gender ∈ S.calls → ¬ Fertile (mintCalls S.calls) m s := by
  have hsuffix : calls h <:+ S.calls := hcalls ▸ List.suffix_rfl
  rw [List.eq_nil_iff_forall_not_mem]
  constructor
  · intro hnone a m s gender hmem hfert
    obtain ⟨r, hmem⟩ := mem_calls.mp (hcalls ▸ hmem)
    cases (accepted_iff_fertile hr hsuffix hmem).mpr hfert
    exact hnone ⟨a, m, s, gender⟩ (mem_acceptedBreeds.mpr hmem)
  · intro hnone b hb
    have hb := mem_acceptedBreeds.mp hb
    exact hnone _ _ _ _ (hcalls ▸ mem_calls.mpr ⟨_, hb⟩)
      ((accepted_iff_fertile hr hsuffix hb).mp rfl)

end Runs

/-! ### Without an accepted breed -/

/-- What the owner of a minted kitty holds: its genes, and no parents. -/
def Minted.lineage (x : Minted A γ) : γ × ℕ × ℕ := (x.genes, 0xffffffff, 0xffffffff)

/-- Nothing but mints has happened: every kitty minted is with its owner or on its way, and there
are no others. -/
structure Settled (ks : List (Call A γ k)) (c : Config (State A γ k) (Relay A γ)) : Prop where
  listed : (c.state.height, c.state.allKitties) = entered ks
  newBorns : ∀ shard, c.state.newBorns shard = []
  flight : ∀ r ∈ c.inFlight, ∃ id x, (mintCalls ks)[id]? = some x ∧
    r = .storeMinted x.owner x.genes x.gender id
  kept : ∀ {id x}, (mintCalls ks)[id]? = some x →
    .storeMinted x.owner x.genes x.gender id ∈ c.inFlight ∨
      ∃ y, c.state.myKitties x.owner id = some y ∧ y.lineage = x.lineage
  only : ∀ {a id y}, c.state.myKitties a id = some y →
    ∃ x, (mintCalls ks)[id]? = some x ∧ x.owner = a ∧ y.lineage = x.lineage

namespace Settled

variable {ks : List (Call A γ k)} {c : Config (State A γ k) (Relay A γ)}

theorem length_allKitties (hs : Settled ks c) :
    c.state.allKitties.length = (mintCalls ks).length := by
  rw [← length_entered, ← hs.listed]

/-- A call that mints nothing and emits nothing. -/
theorem call (hs : Settled ks c) {q : Call A γ k} (hq : mintCall? q = none) {st : State A γ k}
    (hlisted : (st.height, st.allKitties) = entered (q :: ks))
    (hnew : st.newBorns = c.state.newBorns) (hkitties : st.myKitties = c.state.myKitties) :
    Settled (q :: ks) ⟨st, c.inFlight⟩ := by
  have hmints : mintCalls (q :: ks) = mintCalls ks := by
    rw [mintCalls_cons, hq, Option.toList, List.append_nil]
  refine ⟨hlisted, fun shard => ?_, ?_, ?_, ?_⟩
  · rw [hnew]
    exact hs.newBorns shard
  · rw [hmints]
    exact hs.flight
  · rw [hmints, hkitties]
    exact hs.kept
  · rw [hmints, hkitties]
    exact hs.only

/-- A mint puts the relay of the kitty in flight. -/
theorem mint (hs : Settled ks c) (genes : γ) (gender : Bool) (owner : A) :
    Settled (.mint genes gender owner :: ks)
      ⟨{ c.state with allKitties := c.state.allKitties ++ [⟨gender, c.state.height, owner⟩] },
        c.inFlight + ([.storeMinted owner genes gender c.state.allKitties.length] :
          List (Relay A γ))⟩ := by
  have hmints : mintCalls (.mint genes gender owner :: ks) =
      mintCalls ks ++ [⟨genes, gender, owner⟩] := mintCalls_cons _ ks
  have hold : ∀ {id : ℕ} {x}, (mintCalls ks)[id]? = some x →
      (mintCalls (.mint genes gender owner :: ks))[id]? = some x := by
    intro id x hx
    rw [hmints]
    exact getElem?_concat_eq_some.mpr (.inl hx)
  refine ⟨by rw [entered, ← hs.listed], hs.newBorns, fun r hr => ?_, fun {id x} hx => ?_, ?_⟩
  · rcases Multiset.mem_add.mp hr with hr | hr
    · obtain ⟨id, x, hx, rfl⟩ := hs.flight r hr
      exact ⟨id, x, hold hx, rfl⟩
    · cases List.mem_singleton.mp hr
      refine ⟨_, ⟨genes, gender, owner⟩, ?_, rfl⟩
      rw [hmints, hs.length_allKitties, List.getElem?_concat_length]
  · rw [hmints, getElem?_concat_eq_some] at hx
    rcases hx with hx | ⟨rfl, rfl⟩
    · exact (hs.kept hx).imp_left fun hmem => Multiset.mem_add.mpr (.inl hmem)
    · rw [hs.length_allKitties]
      exact .inl (Multiset.mem_add.mpr (.inr (List.mem_singleton.mpr rfl)))
  · intro a id y hy
    obtain ⟨x, hx, hrest⟩ := hs.only hy
    exact ⟨x, hold hx, hrest⟩

/-- The relay of a mint brings the kitty to its owner. -/
theorem storeMinted [DecidableEq A] {st : State A γ k} {self : A} {genes : γ} {gender : Bool}
    {id : ℕ} {rest : Multiset (Relay A γ)}
    (hs : Settled ks ⟨st, .storeMinted self genes gender id ::ₘ rest⟩) :
    Settled ks ⟨st.put self id ⟨id, genes, 0xffffffff, 0xffffffff, st.height⟩, rest⟩ := by
  obtain ⟨_, x, hx, heq⟩ := hs.flight _ (Multiset.mem_cons_self _ rest)
  cases heq
  refine ⟨hs.listed, hs.newBorns, fun r hr => hs.flight r (Multiset.mem_cons_of_mem hr), ?_, ?_⟩
  · intro i z hz
    by_cases hne : (z.owner, i) = (x.owner, id)
    · obtain rfl : i = id := (Prod.mk.inj hne).2
      obtain rfl : x = z := Option.some.inj (hx.symm.trans hz)
      exact .inr ⟨_, State.put_myKitties_self .., rfl⟩
    · refine (hs.kept hz).imp (fun hmem => ?_) ?_
      · refine (Multiset.mem_cons.mp hmem).resolve_left fun heq => hne ?_
        obtain ⟨howner, -, -, hi⟩ := Relay.storeMinted.inj heq
        rw [howner, hi]
      · rintro ⟨y, hy, hline⟩
        exact ⟨y, by rw [State.put_myKitties_of_ne _ _ hne, hy], hline⟩
  · intro a i y hy
    by_cases hne : (a, i) = (x.owner, id)
    · cases hne
      rw [State.put_myKitties_self] at hy
      cases hy
      exact ⟨x, hx, rfl, rfl⟩
    · rw [State.put_myKitties_of_ne _ _ hne] at hy
      exact hs.only hy

/-- The kitties with an address, once the relays are delivered. -/
theorem holdings_eq (hs : Settled ks c) (hq : c.inFlight = 0) (a : A) : holdings c.state a =
    {l | ∃ x ∈ mintCalls ks, x.owner = a ∧ x.lineage = l} := by
  ext l
  constructor
  · rintro ⟨id, y, hy, rfl⟩
    obtain ⟨x, hx, howner, hline⟩ := hs.only hy
    exact ⟨x, List.mem_of_getElem? hx, howner, hline.symm⟩
  · rintro ⟨x, hx, rfl, rfl⟩
    obtain ⟨id, hid⟩ := List.mem_iff_getElem?.mp hx
    rcases hs.kept hid with hmem | ⟨y, hy, hline⟩
    · exact absurd (hq ▸ hmem) (Multiset.notMem_zero _)
    · exact ⟨id, y, hy, hline⟩

end Settled

section Runs

variable [DecidableEq A] [Zero γ] {X : Chain A} {V : Variant A γ X.shardOrder}
  {G : History A γ X.shardOrder → Config (State A γ X.shardOrder) (Relay A γ) →
    Event (Call A γ X.shardOrder) (Relay A γ) Unit Fault → Prop}
  {h : History A γ X.shardOrder} {c : Config (State A γ X.shardOrder) (Relay A γ)}
  {S : Script A γ X.shardOrder}

/-- **A run in which no breed is accepted** is one of mints, in either contract. -/
theorem settled_of_run (hr : (machine X V).Run G ⟨deployed A γ X.shardOrder, 0⟩ h c)
    (hnone : acceptedBreeds h = []) : Settled (calls h) c := by
  have hnone : ∀ {h'}, h' <:+ h → acceptedBreeds h' = [] := fun hsuffix =>
    List.sublist_nil.mp (hnone ▸ hsuffix.sublist.filterMap accepted?)
  refine hr.within.invariant (I := fun h c => Settled (calls h) c) ?_ ?_ ?_ ?_ ?_
  · refine ⟨rfl, fun _ => rfl, fun r hr => absurd hr (Multiset.notMem_zero r), ?_, ?_⟩
    · intro id x hx
      cases hx
    · intro a id y hy
      cases hy
  · intro h' c q eff _ ih hg hk
    cases called_of_ok hk with
    | mint genes gender owner => exact ih.mint genes gender owner
    | breed => cases hnone hg.2
    | register hsome => exact absurd (ih.newBorns _) hsome
    | registerNone => simpa using ih.call rfl ih.listed rfl rfl
    | newBlock height =>
      have hnext : Settled (.newBlock height :: calls h') ⟨{ c.state with height }, c.inFlight⟩ :=
        ih.call rfl (by rw [entered, ← ih.listed]) rfl rfl
      simpa using hnext
  · intro h' c q f _ ih _ hk
    cases q with
    | mint | newBlock => cases hk
    | breed | registerNewBorns => exact ih.call rfl ih.listed rfl rfl
  · intro h' st r rest eff _ ih _ hk
    obtain ⟨id, x, hx, rfl⟩ := ih.flight r (Multiset.mem_cons_self r rest)
    cases hk
    simpa using ih.storeMinted
  · intro h' st r rest f _ ih _ hk
    obtain ⟨id, x, hx, rfl⟩ := ih.flight r (Multiset.mem_cons_self r rest)
    cases hk

/-! ### The registration at the end -/

/-- No newborn comes to a shard any more. -/
def Closed (shard : Fin (2 ^ k)) (c : Config (State A γ k) (Relay A γ)) : Prop :=
  c.state.newBorns shard = [] ∧ ∀ r ∈ c.inFlight, ¬ r.OfBreeding

omit [DecidableEq A] [Zero γ] in
/-- A call of `registerNewBorns`, on this shard or another. -/
theorem Closed.register {shard shard' : Fin (2 ^ X.shardOrder)}
    {eff : Effect (State A γ X.shardOrder) (Relay A γ) Unit}
    (hk : Called c.state (.registerNewBorns shard') eff)
    (hflight : ∀ r ∈ c.inFlight, ¬ r.OfBreeding)
    (hnil : shard = shard' ∨ c.state.newBorns shard = []) :
    Closed shard ⟨eff.state, c.inFlight + eff.relays⟩ := by
  cases hk with
  | register hsome =>
    constructor
    · show Function.update c.state.newBorns shard' [] shard = []
      by_cases heq : shard = shard'
      · rw [heq, Function.update_self]
      · rw [Function.update_of_ne heq, hnil.resolve_left heq]
    · intro r hr
      rcases Multiset.mem_add.mp hr with hr | hr
      · exact hflight r hr
      · cases List.mem_singleton.mp hr
        exact id
  | registerNone hnone =>
    refine ⟨?_, by simpa using hflight⟩
    rcases hnil with rfl | hnil
    · exact hnone
    · exact hnil

/-- A relay. -/
theorem Closed.deliver {shard : Fin (2 ^ X.shardOrder)} {st : State A γ X.shardOrder}
    {r : Relay A γ} {rest : Multiset (Relay A γ)}
    {eff : Effect (State A γ X.shardOrder) (Relay A γ) Unit} (hc : Closed shard ⟨st, r ::ₘ rest⟩)
    (hk : Delivered X V st r eff) : Closed shard ⟨eff.state, rest + eff.relays⟩ := by
  obtain ⟨hnil, hflight⟩ := hc
  have hbr := hflight r (Multiset.mem_cons_self r rest)
  have hrest : ∀ r ∈ rest, ¬ r.OfBreeding := fun r hr => hflight r (Multiset.mem_cons_of_mem hr)
  cases hk with
  | storeMinted | breedMatron | breedSire | storeNewBorn => exact absurd trivial hbr
  | collectNewBorns ns =>
    refine ⟨hnil, fun r hr => ?_⟩
    rcases Multiset.mem_add.mp hr with hr | hr
    · exact hrest r hr
    · obtain ⟨self, i, id, rfl⟩ := exists_of_mem_registrations hr
      exact fun hr => hr
  | registerNewBorn => exact ⟨hnil, by simpa using hrest⟩

/-- **Once a shard is registered, it is closed.** -/
theorem closed_of_run (hr : (machine X V).Run InTime ⟨deployed A γ X.shardOrder, 0⟩ h c)
    (hcalls : calls h <:+ S.calls) {shard : Fin (2 ^ X.shardOrder)}
    (hreg : .registerNewBorns shard ∈ calls h) : Closed shard c := by
  revert hreg
  refine (hr.along hcalls).invariant (I := fun h c => .registerNewBorns shard ∈ calls h →
    Closed shard c) (fun hmem => absurd hmem List.not_mem_nil) ?_ ?_ ?_ ?_
  · intro h c q eff _ ih hg hk hmem
    rw [calls_cons_call, List.mem_cons] at hmem
    cases q with
    | mint genes gender owner =>
      have hno := S.register_notMem hg.2 S.mint_notMem_registering shard
      exact absurd (hmem.resolve_left (by rintro ⟨⟩)) hno
    | breed =>
      have hno := S.register_notMem hg.2 S.breed_notMem_registering shard
      exact absurd (hmem.resolve_left (by rintro ⟨⟩)) hno
    | registerNewBorns shard' =>
      exact .register (called_of_ok hk) hg.1
        (hmem.imp Call.registerNewBorns.inj fun hmem => (ih hmem).1)
    | newBlock =>
      cases hk
      obtain ⟨hnil, hflight⟩ := ih (hmem.resolve_left (by rintro ⟨⟩))
      exact ⟨hnil, by simpa using hflight⟩
  · intro h c q f _ ih _ hk hmem
    rcases List.mem_cons.mp hmem with rfl | hmem
    · exact absurd hk (registerNewBorns_ne_error _ _)
    · exact ih hmem
  · intro h st r rest eff _ ih _ hk hmem
    exact (ih hmem).deliver (delivered_of_ok hk)
  · intro h st r rest f _ ih _ _ hmem
    exact ⟨(ih hmem).1, fun r hr => (ih hmem).2 r (Multiset.mem_cons_of_mem hr)⟩

end Runs

/-! ### The two contracts -/

/-- A state that the script ends in, with its relays delivered in time. -/
def EndsIn [DecidableEq A] [Zero γ] (X : Chain A) (V : Variant A γ X.shardOrder)
    (S : Script A γ X.shardOrder) (st : State A γ X.shardOrder) : Prop :=
  ∃ h, (machine X V).Run InTime ⟨deployed A γ X.shardOrder, 0⟩ h ⟨st, 0⟩ ∧ calls h = S.calls

/-- **The two contracts agree**: every address has the same kitties, by their genes and parents, and
`allKitties` is the same. -/
def Agree (st : State A ℤ k) (st' : State A ℕ k) : Prop :=
  (∀ a, holdings st a = Set.image (Prod.map (↑) id) (holdings st' a)) ∧
    st.allKitties = st'.allKitties

variable [DecidableEq A] {X : Chain A}

theorem exists_endsIn [Zero γ] (V : Variant A γ X.shardOrder) (S : Script A γ X.shardOrder) :
    ∃ st, EndsIn X V S st := by
  obtain ⟨h, ⟨st, flight⟩, hr, hq, hcalls⟩ := exists_eager_run X V S.calls
  obtain rfl : flight = 0 := hq
  exact ⟨st, h, hr.mono fun _ _ _ => inTime_of_eager, hcalls⟩

/-- In `Kitty.prd` every accepted breed ends with a kitty more. -/
theorem length_allKitties_of_bigint {S : Script A ℤ X.shardOrder} {h : History A ℤ X.shardOrder}
    {st : State A ℤ X.shardOrder}
    (hr : (kitty X).Run InTime ⟨deployed A ℤ X.shardOrder, 0⟩ h ⟨st, 0⟩)
    (hcalls : calls h = S.calls) :
    st.allKitties.length = (mintCalls S.calls).length + (acceptedBreeds h).length := by
  have hsuffix : calls h <:+ S.calls := hcalls ▸ List.suffix_rfl
  have hnil : ∀ shard, st.newBorns shard = [] := fun shard =>
    (closed_of_run hr hsuffix (hcalls ▸ List.mem_append.mpr (.inl (S.registers shard)))).1
  have hbirths := length_acceptedBreeds_eq hr
  have hlen := length_allKitties_eq hr
  rw [Config.carried_zero, Multiset.card_zero, zero_add] at hbirths
  rw [Config.carried_zero, zero_add, card_waiting, hbirths, mints_eq_mintCalls hr, hcalls] at hlen
  simpa [hnil] using hlen

/-- In `Kitty_uint256.prd` there are only the minted ones. -/
theorem length_allKitties_of_uint256 {S : Script A ℕ X.shardOrder} {h : History A ℕ X.shardOrder}
    {st : State A ℕ X.shardOrder}
    (hr : (kittyUint256 X).Run InTime ⟨deployed A ℕ X.shardOrder, 0⟩ h ⟨st, 0⟩)
    (hcalls : calls h = S.calls) : st.allKitties.length = (mintCalls S.calls).length := by
  have hlisted := entered_of_run (hr.mono_of_run fun hr _ _ =>
    ofBreeding_of_none_found (fun hr _ => newBorns_eq_nil hr _) hr)
  rw [← length_entered, ← hcalls, ← hlisted]

omit [DecidableEq A] in
/-- Without an accepted breed the two contracts agree. -/
theorem agree_of_settled {ks : List (Call A ℕ k)} {st : State A ℤ k} {st' : State A ℕ k}
    (hs : Settled (ks.map (Call.map (↑))) ⟨st, 0⟩) (hs' : Settled ks ⟨st', 0⟩) : Agree st st' := by
  constructor
  · intro a
    rw [hs.holdings_eq rfl, hs'.holdings_eq rfl, mintCalls_map]
    ext l
    constructor
    · rintro ⟨_, hmem, howner, rfl⟩
      obtain ⟨x, hx, rfl⟩ := List.mem_map.mp hmem
      exact ⟨x.lineage, ⟨x, hx, howner, rfl⟩, rfl⟩
    · rintro ⟨_, ⟨x, hx, howner, rfl⟩, rfl⟩
      exact ⟨x.map (↑), List.mem_map.mpr ⟨x, hx, rfl⟩, howner, rfl⟩
  · have hlisted := hs.listed
    rw [entered_map, ← hs'.listed] at hlisted
    exact (Prod.mk.inj hlisted).2

/-- **The two contracts agree exactly if no breed is accepted.** Both have a run of every script,
and the states they end in agree if and only if no breed of the script is of two minted kitties with
the first a matron. -/
theorem variants_agree_iff (X : Chain A) (S : Script A ℕ X.shardOrder) :
    (∃ st, EndsIn X (bigint A X.shardOrder) (S.map (↑)) st) ∧
    (∃ st', EndsIn X (uint256 X.overflow A X.shardOrder) S st') ∧
    ∀ {st st'}, EndsIn X (bigint A X.shardOrder) (S.map (↑)) st →
      EndsIn X (uint256 X.overflow A X.shardOrder) S st' →
      (Agree st st' ↔
        ∀ a m s gender, .breed a m s gender ∈ S.calls → ¬ Fertile (mintCalls S.calls) m s) := by
  refine ⟨exists_endsIn _ _, exists_endsIn _ _, ?_⟩
  rintro st st' ⟨h, hr, hcalls⟩ ⟨h', hr', hcalls'⟩
  have hnone := acceptedBreeds_eq_nil_iff hr hcalls
  simp only [Script.breed_mem_calls_map] at hnone
  simp only [Script.calls_map, mintCalls_map, fertile_map] at hnone
  rw [← hnone]
  constructor
  · rintro ⟨-, hall⟩
    have hlen := length_allKitties_of_bigint hr hcalls
    rw [hall, length_allKitties_of_uint256 hr' hcalls', Script.calls_map, mintCalls_map,
      List.length_map] at hlen
    exact List.length_eq_zero_iff.mp (by omega)
  · intro hacc
    have hacc' := (acceptedBreeds_eq_nil_iff hr' hcalls').mpr (hnone.mp hacc)
    have hs := settled_of_run hr hacc
    have hs' := settled_of_run hr' hacc'
    rw [hcalls, Script.calls_map] at hs
    rw [hcalls'] at hs'
    exact agree_of_settled hs hs'

/-- A matron is minted, a breed is called, and its shard is registered. -/
def mintAndBreed (m s : ℕ) : Script (Fin 2) ℕ 0 where
  registering := (List.finRange 1).map .registerNewBorns
  breeding := [.breed 0 m s true]
  minting := [.mint 4 true 0]
  registers shard := List.mem_map.mpr ⟨shard, List.mem_finRange shard, rfl⟩
  registering_only := by simp
  breeding_only := by simp
  minting_only := by simp

/-- A breed with a kitty that is not there is rejected by both contracts. -/
theorem variants_agree_iff_mintAndBreed : ∃ st st',
    EndsIn (oneShard .trap) (bigint (Fin 2) 0) ((mintAndBreed 0 1).map (↑)) st ∧
    EndsIn (oneShard .trap) (uint256 .trap (Fin 2) 0) (mintAndBreed 0 1) st' ∧ Agree st st' := by
  obtain ⟨⟨st, hst⟩, ⟨st', hst'⟩, hiff⟩ := variants_agree_iff (oneShard .trap) (mintAndBreed 0 1)
  refine ⟨st, st', hst, hst', (hiff hst hst').mpr ?_⟩
  rintro a m s gender hmem ⟨-, hs⟩
  have hmem : .breed a m s gender ∈
      ([.registerNewBorns 0, .breed 0 0 1 true, .mint 4 true 0] : List (Call (Fin 2) ℕ 0)) := hmem
  obtain ⟨-, -, rfl, -⟩ : a = 0 ∧ m = 0 ∧ s = 1 ∧ gender = true := by simpa using hmem
  exact absurd hs (by decide)

/-- **The two contracts differ** after one breed: its newborn is registered in `Kitty.prd` and not
in `Kitty_uint256.prd`. -/
theorem variants_disagree : ∃ st st',
    EndsIn (oneShard .trap) (bigint (Fin 2) 0) ((mintAndBreed 0 0).map (↑)) st ∧
    EndsIn (oneShard .trap) (uint256 .trap (Fin 2) 0) (mintAndBreed 0 0) st' ∧
    st.allKitties.length = 2 ∧ st'.allKitties.length = 1 ∧ ¬ Agree st st' := by
  obtain ⟨⟨h, ⟨st, _⟩⟩, hx, rfl, hcalls, hlen⟩ :
      ∃ r ∈ (kitty (oneShard .trap)).exec InTime ⟨deployed (Fin 2) ℤ 0, 0⟩
        [.call (.mint 4 true 0), .deliver (.storeMinted 0 4 true 0), .call (.breed 0 0 0 true),
         .deliver (.breedMatron 0 0 0 0 true), .deliver (.breedSire 0 0 4 0 0 true),
         .deliver (.storeNewBorn 0 0 0 true 4 0), .call (.registerNewBorns 0),
         .deliver (.collectNewBorns [⟨true, 0, 0⟩]), .deliver (.registerNewBorn 0 0 1)],
        r.2.inFlight = 0 ∧
        calls r.1 = [.registerNewBorns 0, .breed 0 0 0 true, .mint 4 true 0] ∧
        r.2.state.allKitties.length = 2 := by
    decide
  obtain ⟨⟨h', ⟨st', _⟩⟩, hx', rfl, hcalls', hlen'⟩ :
      ∃ r ∈ (kittyUint256 (oneShard .trap)).exec InTime ⟨deployed (Fin 2) ℕ 0, 0⟩
        [.call (.mint 4 true 0), .deliver (.storeMinted 0 4 true 0), .call (.breed 0 0 0 true),
         .deliver (.breedMatron 0 0 0 0 true), .deliver (.breedSire 0 0 4 0 0 true),
         .deliver (.storeNewBorn 0 0 0 true 4 0), .call (.registerNewBorns 0)],
        r.2.inFlight = 0 ∧
        calls r.1 = [.registerNewBorns 0, .breed 0 0 0 true, .mint 4 true 0] ∧
        r.2.state.allKitties.length = 1 := by
    decide
  refine ⟨st, st', ⟨h, Machine.exec_run hx, hcalls⟩, ⟨h', Machine.exec_run hx', hcalls'⟩, hlen,
    hlen', fun hagree => ?_⟩
  rw [hagree.2] at hlen
  exact absurd (hlen.symm.trans hlen') (by decide)

end KittyBreeding

end Preda

end RelayContracts
