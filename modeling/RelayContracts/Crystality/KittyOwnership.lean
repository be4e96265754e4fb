import RelayContracts.Crystality.Kitty

/-!
# Who gets a newborn of the Crystality kitty contract

On PREDA and on Sei a newborn goes to the address that initiated the breeding. Here the chain of
handlers is `breed`, `_relay_lambda_2` at the owner of the matron, `_relay_lambda_3` at the owner of
the sire and `_relay_lambda_4` where the newborn is stored, and each knows its own scope and what it
was passed. The initiator is not passed, and `_relay_lambda_3` relays to its own scope. So the
newborn goes to the owner of the sire.

`breed_agrees_iff` says that this is the only difference to the Sei contract. Both start from the
same mints; on both no newborn comes of a parent whose genes are the largest value of the type.

## Main definitions

* `BornTo` — what breeding is for, in terms of the maps before and after it
* `HoldsMints` — the list and the maps hold these mints and nothing else
* `Breeding` — how far the handlers of one breeding have got
-/

namespace RelayContracts

namespace Crystality

namespace KittyBreeding

open RelayMachine
open Preda (Chain)
open Preda.KittyBreeding (KittyInfo Kitty Minted State deployed)
open Sei.KittyBreeding (body newBornKey newBornKey_zero)

variable {A : Type} {k : ℕ}

/-- Breeding has given `a` a newborn with these genes and parents, and nobody else an entry. -/
structure BornTo (a : A) (m s genes : ℕ) (before after : A → ℕ → Option (Kitty ℕ)) : Prop where
  /-- There is one newborn in the map of `a`. -/
  newborn : ∃! key, ∃ kitty, after a key = some kitty ∧ kitty.genes = genes ∧
    kitty.matronId = m ∧ kitty.sireId = s
  /-- No other map has gained an entry. -/
  others : ∀ b ≠ a, ∀ key, (after b key).isSome → (before b key).isSome

variable [DecidableEq A]

/-! ### Mints -/

/-- What a list of mints says about `myKitties[a][i]`, but for `lastBreed`. -/
def mintedAt (ws : List (Minted A ℕ)) (a : A) (i : ℕ) : Option (Kitty ℕ) :=
  (ws[i]?.filter fun w => w.owner = a).map fun w => ⟨i, w.genes, 2 ^ 256 - 1, 2 ^ 256 - 1, 0⟩

/-- The list and the maps hold these mints and nothing else. -/
structure HoldsMints (ws : List (Minted A ℕ)) (allKitties : List (KittyInfo A))
    (myKitties : A → ℕ → Option (Kitty ℕ)) : Prop where
  /-- The list has their genders and owners. -/
  kitties : allKitties.map (fun n => (n.gender, n.owner)) = ws.map fun w => (w.gender, w.owner)
  /-- The maps have their genes. -/
  entries : ∀ a i, (myKitties a i).map body = mintedAt ws a i

variable {ws : List (Minted A ℕ)} {a : A} {i : ℕ}

theorem mintedAt_eq_some {kitty : Kitty ℕ} (h : mintedAt ws a i = some kitty) :
    kitty.matronId = kitty.sireId := by
  obtain ⟨w, -, rfl⟩ := Option.map_eq_some_iff.mp h
  rfl

theorem mintedAt_owner {w : Minted A ℕ} (hw : ws[i]? = some w) :
    mintedAt ws w.owner i = some ⟨i, w.genes, 2 ^ 256 - 1, 2 ^ 256 - 1, 0⟩ := by
  rw [mintedAt, hw, Option.filter_some_pos (by simp), Option.map_some]

/-- One more mint makes one more entry. -/
theorem mintedAt_concat (w : Minted A ℕ) :
    mintedAt (ws ++ [w]) a i = if w.owner = a ∧ ws.length = i then
      some ⟨i, w.genes, 2 ^ 256 - 1, 2 ^ 256 - 1, 0⟩ else mintedAt ws a i := by
  rw [mintedAt, mintedAt]
  rcases lt_trichotomy i ws.length with hlt | rfl | hgt
  · rw [List.getElem?_append_left hlt, if_neg fun heq => hlt.ne' heq.2]
  · rw [List.getElem?_concat_length, List.getElem?_eq_none le_rfl]
    by_cases ha : w.owner = a
    · simp [ha]
    · simp [ha]
  · rw [List.getElem?_eq_none (by simpa using Nat.succ_le_of_lt hgt),
      List.getElem?_eq_none hgt.le, if_neg fun heq => hgt.ne heq.2]

namespace HoldsMints

variable {allKitties : List (KittyInfo A)} {myKitties : A → ℕ → Option (Kitty ℕ)}

/-- A kitty of the list was minted, and is in the map of its owner. -/
theorem lookup (hm : HoldsMints ws allKitties myKitties) {info : KittyInfo A}
    (hi : allKitties[i]? = some info) :
    ∃ w, ws[i]? = some w ∧ w.gender = info.gender ∧ w.owner = info.owner ∧
      (myKitties info.owner i).map body = some ⟨i, w.genes, 2 ^ 256 - 1, 2 ^ 256 - 1, 0⟩ := by
  have hmap : ws[i]?.map (fun w => (w.gender, w.owner)) = some (info.gender, info.owner) := by
    rw [← List.getElem?_map, ← hm.kitties, List.getElem?_map, hi, Option.map_some]
  obtain ⟨w, hw, heq⟩ := Option.map_eq_some_iff.mp hmap
  obtain ⟨hgender, howner⟩ := Prod.mk.inj heq
  refine ⟨w, hw, hgender, howner, ?_⟩
  rw [hm.entries, ← howner, mintedAt_owner hw]

/-- A minted kitty is in the list, and in the map of its owner. -/
theorem exists_info (hm : HoldsMints ws allKitties myKitties) {w : Minted A ℕ}
    (hw : ws[i]? = some w) :
    ∃ info, allKitties[i]? = some info ∧ info.gender = w.gender ∧
      (myKitties info.owner i).map Kitty.genes = some w.genes := by
  have hmap : allKitties[i]?.map (fun n => (n.gender, n.owner)) = some (w.gender, w.owner) := by
    rw [← List.getElem?_map, hm.kitties, List.getElem?_map, hw, Option.map_some]
  obtain ⟨info, hinfo, heq⟩ := Option.map_eq_some_iff.mp hmap
  obtain ⟨hgender, howner⟩ := Prod.mk.inj heq
  refine ⟨info, hinfo, hgender, ?_⟩
  have hbody := hm.entries w.owner i
  rw [mintedAt_owner hw] at hbody
  obtain ⟨kitty, hk, hkbody⟩ := Option.map_eq_some_iff.mp hbody
  rw [howner, hk, Option.map_some]
  exact congrArg some (congrArg Kitty.genes hkbody)

/-- No minted kitty has two different parents. -/
theorem matronId_eq_sireId (hm : HoldsMints ws allKitties myKitties) {kitty : Kitty ℕ}
    (hk : myKitties a i = some kitty) : kitty.matronId = kitty.sireId := by
  have hbody := hm.entries a i
  rw [hk, Option.map_some] at hbody
  have hparents : (body kitty).matronId = (body kitty).sireId := mintedAt_eq_some hbody.symm
  exact hparents

/-- Where the maps are still those of the mints, nothing was born. -/
theorem not_bornTo (hm : HoldsMints ws allKitties myKitties) {m s genes : ℕ} (hne : m ≠ s)
    {after : A → ℕ → Option (Kitty ℕ)}
    (hafter : ∀ b i, (after b i).map body = (myKitties b i).map body) :
    ¬ BornTo a m s genes myKitties after := by
  rintro ⟨⟨key, ⟨kitty, hk, -, rfl, rfl⟩, -⟩, -⟩
  have hm' : HoldsMints ws allKitties after := ⟨hm.kitties, fun b i => by rw [hafter, hm.entries]⟩
  exact hne (hm'.matronId_eq_sireId hk)

/-- Where one newborn was written to the maps, it was born to the address it was written for. -/
theorem bornTo_iff (hm : HoldsMints ws allKitties myKitties) {m s genes : ℕ} (hne : m ≠ s)
    (o : A) (key : ℕ) {after : A → ℕ → Option (Kitty ℕ)}
    (hafter : ∀ b i, (after b i).map body = if o = b ∧ key = i then some ⟨key, genes, m, s, 0⟩
      else (myKitties b i).map body) :
    BornTo a m s genes myKitties after ↔ o = a := by
  have hwritten : ∀ {b i kitty}, after b i = some kitty → kitty.matronId = m →
      kitty.sireId = s → o = b ∧ key = i := by
    rintro b i kitty hk rfl rfl
    by_contra hout
    have hbody := hafter b i
    rw [if_neg hout, hk, Option.map_some] at hbody
    obtain ⟨kitty', hk', hbody'⟩ := Option.map_eq_some_iff.mp hbody.symm
    have hmatron : (body kitty').matronId = (body kitty).matronId := by rw [hbody']
    have hsire : (body kitty').sireId = (body kitty).sireId := by rw [hbody']
    exact hne (hmatron.symm.trans ((hm.matronId_eq_sireId hk').trans hsire))
  constructor
  · rintro ⟨⟨i, ⟨kitty, hk, -, hmatron, hsire⟩, -⟩, -⟩
    exact (hwritten hk hmatron hsire).1
  · rintro rfl
    have hborn := hafter o key
    rw [if_pos ⟨rfl, rfl⟩] at hborn
    obtain ⟨kitty, hk, hbody⟩ := Option.map_eq_some_iff.mp hborn
    refine ⟨⟨key, ⟨kitty, hk, congrArg Kitty.genes hbody, congrArg Kitty.matronId hbody,
      congrArg Kitty.sireId hbody⟩, ?_⟩, ?_⟩
    · rintro i ⟨kitty', hk', -, hmatron, hsire⟩
      exact (hwritten hk' hmatron hsire).2.symm
    · intro b hb i hsome
      have hold := hafter b i
      rw [if_neg fun heq => hb heq.1.symm] at hold
      rw [← Option.isSome_map (f := body), ← hold, Option.isSome_map]
      exact hsome

end HoldsMints

/-! ### Runs of mints -/

/-- The mints entered in the list so far, oldest first. -/
def registered : History A k → List (Minted A ℕ)
  | [] => []
  | .deliver (.lambda0 owner genes gender) _ :: h => registered h ++ [⟨genes, gender, owner⟩]
  | _ :: h => registered h

/-- Where a run of mints stands: the list has the mints registered so far, and where a map lacks one
of them it is in flight. -/
structure Minting (ws : List (Minted A ℕ)) (c : Config (State A ℕ k) (Relay A k)) : Prop where
  /-- The list has their genders and owners. -/
  kitties : c.state.allKitties.map (fun n => (n.gender, n.owner)) =
    ws.map fun w => (w.gender, w.owner)
  /-- There are no newborns. -/
  newBorns : ∀ t, c.state.newBorns t = []
  /-- None is counted. -/
  newBornNums : ∀ t, c.state.newBornNums t = 0
  /-- What is in flight are mints. -/
  inFlight : ∀ r ∈ c.inFlight, (∃ owner genes gender, r = .lambda0 owner genes gender) ∨
    ∃ i w, ws[i]? = some w ∧ r = .lambda1 w.owner w.genes i
  /-- The maps have their genes, or wait for them. -/
  entries : ∀ a i, (c.state.myKitties a i).map body = mintedAt ws a i ∨
    ∃ w, ws[i]? = some w ∧ w.owner = a ∧ .lambda1 a w.genes i ∈ c.inFlight

theorem put_myKitties (self : A) (id : ℕ) (new : Kitty ℕ) (st : State A ℕ k) (a : A) (i : ℕ) :
    (st.put self id new).myKitties a i =
      if self = a ∧ id = i then some new else st.myKitties a i :=
  update_update_apply st.myKitties self id (some new) a i

namespace Minting

variable {st : State A ℕ k} {rest : Multiset (Relay A k)}
  {c : Config (State A ℕ k) (Relay A k)}

theorem length_eq (hm : Minting ws c) : c.state.allKitties.length = ws.length := by
  simpa using congrArg List.length hm.kitties

/-- With nothing in flight, the mints are all there. -/
theorem holdsMints (hm : Minting ws c) (hq : c.inFlight = 0) :
    HoldsMints ws c.state.allKitties c.state.myKitties := by
  refine ⟨hm.kitties, fun a i => (hm.entries a i).resolve_right ?_⟩
  rintro ⟨w, -, -, hmem⟩
  rw [hq] at hmem
  exact Multiset.notMem_zero _ hmem

/-- A mint that is called. -/
theorem called (hm : Minting ws c) (owner : A) (genes : ℕ) (gender : Bool) :
    Minting ws ⟨c.state, c.inFlight + ↑[Relay.lambda0 (k := k) owner genes gender]⟩ where
  kitties := hm.kitties
  newBorns := hm.newBorns
  newBornNums := hm.newBornNums
  inFlight := by
    intro r hr
    rcases Multiset.mem_add.mp hr with hr | hr
    · exact hm.inFlight r hr
    · exact .inl ⟨owner, genes, gender, List.mem_singleton.mp (Multiset.mem_coe.mp hr)⟩
  entries a i := by
    refine (hm.entries a i).imp_right ?_
    rintro ⟨w, hw, ha, hmem⟩
    exact ⟨w, hw, ha, Multiset.mem_add.mpr (.inl hmem)⟩

/-- A mint that is entered in the list. -/
theorem entered {owner : A} {genes : ℕ} {gender : Bool}
    (hm : Minting ws ⟨st, .lambda0 owner genes gender ::ₘ rest⟩) :
    Minting (ws ++ [⟨genes, gender, owner⟩])
      ⟨{ st with allKitties := st.allKitties ++ [⟨gender, st.height, owner⟩] },
        rest + ↑[Relay.lambda1 (k := k) owner genes st.allKitties.length]⟩ where
  kitties := by
    have hkitties : st.allKitties.map (fun n => (n.gender, n.owner)) = _ := hm.kitties
    show (st.allKitties ++ [_]).map _ = _
    rw [List.map_append, List.map_append, hkitties]
    rfl
  newBorns := hm.newBorns
  newBornNums := hm.newBornNums
  inFlight := by
    intro r hr
    rcases Multiset.mem_add.mp hr with hr | hr
    · refine (hm.inFlight r (Multiset.mem_cons_of_mem hr)).imp_right ?_
      rintro ⟨i, w, hw, rfl⟩
      refine ⟨i, w, ?_, rfl⟩
      rw [List.getElem?_append_left (List.getElem?_eq_some_iff.mp hw).1, hw]
    · refine .inr ⟨ws.length, ⟨genes, gender, owner⟩, List.getElem?_concat_length, ?_⟩
      rw [List.mem_singleton.mp (Multiset.mem_coe.mp hr), show st.allKitties.length = _ from
        hm.length_eq]
  entries a i := by
    rw [mintedAt_concat]
    by_cases hkey : owner = a ∧ ws.length = i
    · obtain ⟨rfl, rfl⟩ := hkey
      refine .inr ⟨⟨genes, gender, owner⟩, List.getElem?_concat_length, rfl, ?_⟩
      refine Multiset.mem_add.mpr (.inr ?_)
      rw [show st.allKitties.length = _ from hm.length_eq]
      exact List.mem_singleton_self _
    · rw [if_neg hkey]
      refine (hm.entries a i).imp_right ?_
      rintro ⟨w, hw, ha, hmem⟩
      refine ⟨w, ?_, ha, Multiset.mem_add.mpr (.inl ?_)⟩
      · rw [List.getElem?_append_left (List.getElem?_eq_some_iff.mp hw).1, hw]
      · exact (Multiset.mem_cons.mp hmem).resolve_left fun heq => by cases heq

/-- A mint whose genes arrive. -/
theorem stored {scope : A} {genes id : ℕ}
    (hm : Minting ws ⟨st, .lambda1 scope genes id ::ₘ rest⟩) :
    Minting ws
      ⟨st.put scope id ⟨id, genes, 2 ^ 256 - 1, 2 ^ 256 - 1, st.height⟩, rest⟩ where
  kitties := hm.kitties
  newBorns := hm.newBorns
  newBornNums := hm.newBornNums
  inFlight r hr := hm.inFlight r (Multiset.mem_cons_of_mem hr)
  entries a i := by
    rw [put_myKitties]
    by_cases hkey : scope = a ∧ id = i
    · obtain ⟨rfl, rfl⟩ := hkey
      left
      rcases hm.inFlight _ (Multiset.mem_cons_self _ rest) with ⟨_, _, _, heq⟩ | ⟨j, w, hw, heq⟩
      · cases heq
      · cases heq
        rw [if_pos ⟨rfl, rfl⟩, mintedAt_owner hw]
        rfl
    · rw [if_neg hkey]
      refine (hm.entries a i).imp_right ?_
      rintro ⟨w, hw, ha, hmem⟩
      refine ⟨w, hw, ha, (Multiset.mem_cons.mp hmem).resolve_left ?_⟩
      intro heq
      cases heq
      exact hkey ⟨rfl, rfl⟩

end Minting

section Runs

variable {X : Chain A} {h : History A X.shardOrder}
  {c : Config (State A ℕ X.shardOrder) (Relay A X.shardOrder)}
  {G : History A X.shardOrder → Config (State A ℕ X.shardOrder) (Relay A X.shardOrder) →
    Event (Call A X.shardOrder) (Relay A X.shardOrder) Unit Fault → Prop}

/-- **A run of mints** has the mints in the list, and their genes in the maps or in flight. -/
theorem minting_of_run (hr : (machine X).Run G ⟨deployed A ℕ X.shardOrder, 0⟩ h c)
    (hmints : ∀ e ∈ calls h, e.isMint) : Minting (registered h) c := by
  revert hmints
  refine hr.invariant (I := fun h c => (∀ e ∈ calls h, e.isMint) → Minting (registered h) c)
    ?_ ?_ ?_ ?_ ?_
  · intro _
    exact ⟨rfl, fun _ => rfl, fun _ => rfl, fun r hr => absurd hr (Multiset.notMem_zero r),
      fun _ _ => .inl rfl⟩
  · intro h c e eff _ ih _ he hmints
    rw [calls_cons_call, List.forall_mem_cons] at hmints
    have hm := ih hmints.2
    cases e with
    | mint owner genes gender =>
      cases he
      exact hm.called owner genes gender
    | newBlock number =>
      cases he
      dsimp only
      rw [Multiset.coe_nil, add_zero]
      exact ⟨hm.kitties, hm.newBorns, hm.newBornNums, hm.inFlight, hm.entries⟩
    | _ => cases hmints.1
  · intro h c e f _ ih _ he hmints
    rw [calls_cons_call, List.forall_mem_cons] at hmints
    exact ih hmints.2
  · intro h st r rest eff _ ih _ hd hmints
    have hm := ih hmints
    rcases hm.inFlight r (Multiset.mem_cons_self r rest) with ⟨owner, genes, gender, rfl⟩ |
      ⟨i, w, -, rfl⟩
    · cases delivered_of_ok hd
      exact hm.entered
    · cases delivered_of_ok hd
      dsimp only
      rw [Multiset.coe_nil, add_zero]
      exact hm.stored
  · intro h st r rest f _ ih _ hd hmints
    have hm := ih hmints
    rcases hm.inFlight r (Multiset.mem_cons_self r rest) with ⟨owner, genes, gender, rfl⟩ |
      ⟨i, w, -, rfl⟩
    · cases hd
    · cases hd

end Runs

/-! ### One breeding -/

/-- The guard under which relays are delivered and nothing is called. Blocks may pass. -/
def Delivering (_ : History A k) (_ : Config (State A ℕ k) (Relay A k)) :
    Event (Call A k) (Relay A k) Unit Fault → Prop
  | .deliver _ _ => True
  | .call (.newBlock _) _ => True
  | _ => False

instance (h : History A k) (c : Config (State A ℕ k) (Relay A k))
    (e : Event (Call A k) (Relay A k) Unit Fault) : Decidable (Delivering h c e) :=
  match e with
  | .deliver _ _ | .call (.newBlock _) _ => isTrue trivial
  | .call (.mint _ _ _) _ | .call (.breed _ _ _ _) _ | .call (.finalize _) _
  | .call (.direct _) _ => isFalse id

/-- What a breeding starts from. -/
structure Ready (st₀ : State A ℕ k) (m s : ℕ) (matron sire : A) (mGenes sGenes : ℕ) : Prop where
  /-- The sire is in the list with its owner. -/
  sire_owner : ∃ info, st₀.allKitties[s]? = some info ∧ info.owner = sire
  /-- The matron is in the map of its owner. -/
  matron_entry : ∃ kitty, st₀.myKitties matron m = some kitty ∧ kitty.genes = mGenes
  /-- So is the sire. -/
  sire_genes : (st₀.read sire s).genes = sGenes
  /-- There are no newborns. -/
  newBorns : ∀ t, st₀.newBorns t = []
  /-- None is counted. -/
  newBornNums : ∀ t, st₀.newBornNums t = 0

/-- A state in which nothing has changed but the block and `lastBreed` of some kitties. -/
structure Unbred (st₀ st : State A ℕ k) : Prop where
  kitties : st.allKitties = st₀.allKitties
  newBorns : st.newBorns = st₀.newBorns
  newBornNums : st.newBornNums = st₀.newBornNums
  entries : ∀ a i, (st.myKitties a i).map body = (st₀.myKitties a i).map body

/-- How far a breeding has got, which started from `st₀`. -/
inductive Breeding (st₀ : State A ℕ k) (m s : ℕ) (gender : Bool) (matron sire : A)
    (mGenes sGenes : ℕ) : Config (State A ℕ k) (Relay A k) → Prop
  /-- It is on its way to the owner of the matron. -/
  | toMatron {st : State A ℕ k} (hu : Unbred st₀ st) :
      Breeding st₀ m s gender matron sire mGenes sGenes ⟨st, {.lambda2 matron m s gender}⟩
  /-- It is on its way to the owner of the sire. -/
  | toSire {st : State A ℕ k} (hu : Unbred st₀ st) :
      Breeding st₀ m s gender matron sire mGenes sGenes ⟨st, {.lambda3 sire mGenes m s gender}⟩
  /-- The newborn is on its way, to the owner of the sire once more. -/
  | toBreeder {st : State A ℕ k} (hu : Unbred st₀ st) (hm : mGenes < 2 ^ 256 - 1)
      (hs : sGenes < 2 ^ 256 - 1) :
      Breeding st₀ m s gender matron sire mGenes sGenes
        ⟨st, {.lambda4 sire m s gender (Nat.sqrt mGenes * Nat.sqrt sGenes)}⟩
  /-- The newborn is stored. -/
  | born {st : State A ℕ k} (hm : mGenes < 2 ^ 256 - 1) (hs : sGenes < 2 ^ 256 - 1)
      (hentries : ∀ a i, (st.myKitties a i).map body = if sire = a ∧ 2 ^ 255 = i then
        some ⟨2 ^ 255, Nat.sqrt mGenes * Nat.sqrt sGenes, m, s, 0⟩
        else (st₀.myKitties a i).map body) :
      Breeding st₀ m s gender matron sire mGenes sGenes ⟨st, 0⟩
  /-- There was no mixture of the genes. -/
  | failed {st : State A ℕ k} (hu : Unbred st₀ st)
      (hgenes : ¬ (mGenes < 2 ^ 256 - 1 ∧ sGenes < 2 ^ 256 - 1)) :
      Breeding st₀ m s gender matron sire mGenes sGenes ⟨st, 0⟩

/-- How many handlers are still to run in the breeding that a relay belongs to. -/
def Relay.hops : Relay A k → ℕ
  | .lambda2 _ _ _ _ => 3
  | .lambda3 _ _ _ _ _ => 2
  | .lambda4 _ _ _ _ _ => 1
  | _ => 0

omit [DecidableEq A] in
theorem Unbred.genes {st₀ st : State A ℕ k} (hu : Unbred st₀ st) (a : A) (i : ℕ) :
    (st.read a i).genes = (st₀.read a i).genes := by
  have hgenes : ∀ o : Option (Kitty ℕ), (o.getD Kitty.zero).genes =
      ((o.map body).getD Kitty.zero).genes := by
    rintro (_ | kitty) <;> rfl
  rw [State.read, State.read, hgenes, hu.entries, ← hgenes]

/-- Writing `lastBreed` of an entry that is there. -/
theorem Unbred.touch {st₀ st : State A ℕ k} (hu : Unbred st₀ st) {scope : A} {id : ℕ}
    (hsome : (st₀.myKitties scope id).isSome) (t : ℕ) :
    Unbred st₀ (st.put scope id { st.read scope id with lastBreed := t }) where
  kitties := hu.kitties
  newBorns := hu.newBorns
  newBornNums := hu.newBornNums
  entries a i := by
    rw [put_myKitties, ← hu.entries]
    by_cases hkey : scope = a ∧ id = i
    · obtain ⟨rfl, rfl⟩ := hkey
      rw [← Option.isSome_map (f := body), ← hu.entries, Option.isSome_map] at hsome
      obtain ⟨kitty, hk⟩ := Option.isSome_iff_exists.mp hsome
      rw [if_pos ⟨rfl, rfl⟩, State.read, hk]
      rfl
    · rw [if_neg hkey]

namespace Breeding

variable {X : Chain A} {st₀ : State A ℕ X.shardOrder} {m s mGenes sGenes : ℕ} {gender : Bool}
  {matron sire : A} {c c' : Config (State A ℕ X.shardOrder) (Relay A X.shardOrder)}

/-- A block that passes. -/
theorem newBlock (hb : Breeding st₀ m s gender matron sire mGenes sGenes c) (height : ℕ) :
    Breeding st₀ m s gender matron sire mGenes sGenes ⟨{ c.state with height }, c.inFlight⟩ := by
  cases hb with
  | toMatron hu => exact .toMatron ⟨hu.kitties, hu.newBorns, hu.newBornNums, hu.entries⟩
  | toSire hu => exact .toSire ⟨hu.kitties, hu.newBorns, hu.newBornNums, hu.entries⟩
  | toBreeder hu hm hs =>
    exact .toBreeder ⟨hu.kitties, hu.newBorns, hu.newBornNums, hu.entries⟩ hm hs
  | born hm hs hentries => exact .born hm hs hentries
  | failed hu hgenes => exact .failed ⟨hu.kitties, hu.newBorns, hu.newBornNums, hu.entries⟩ hgenes

/-- A handler that runs. -/
theorem deliver (hready : Ready st₀ m s matron sire mGenes sGenes)
    (hb : Breeding st₀ m s gender matron sire mGenes sGenes c) {r : Relay A X.shardOrder}
    {v : Except Fault Unit} (hs : (machine X).Step c (.deliver r v) c') :
    Breeding st₀ m s gender matron sire mGenes sGenes c' ∧
      c'.carried Relay.hops < c.carried Relay.hops := by
  cases hb with
  | @toMatron st hu =>
    obtain ⟨info, hinfo, rfl⟩ := hready.sire_owner
    obtain ⟨kitty, hk, rfl⟩ := hready.matron_entry
    have hinfo' : st.allKitties[s]? = some info := by rw [hu.kitties, hinfo]
    rcases hs.of_singleton with ⟨eff, hd, rfl⟩ | ⟨f, hd, rfl⟩
    · cases delivered_of_ok hd with
      | lambda2 hsire =>
        cases hinfo'.symm.trans hsire
        have hgenes : (st.read matron m).genes = kitty.genes := by
          rw [hu.genes, State.read, hk, Option.getD_some]
        rw [hgenes]
        exact ⟨.toSire (hu.touch (by rw [hk]; rfl) st.height), by simp [Config.carried, Relay.hops]⟩
    · cases (lambda2_error hd).symm.trans hinfo'
  | @toSire st hu =>
    have hgenes : (st.read sire s).genes = sGenes := by rw [hu.genes, hready.sire_genes]
    rcases hs.of_singleton with ⟨eff, hd, rfl⟩ | ⟨f, hd, rfl⟩
    · cases delivered_of_ok hd with
      | lambda3 hm hs' =>
        rw [hgenes] at hs' ⊢
        exact ⟨.toBreeder hu hm hs', by simp [Config.carried, Relay.hops]⟩
    · have hfail := lambda3_error hd
      rw [hgenes] at hfail
      exact ⟨.failed hu hfail, by simp [Config.carried, Relay.hops]⟩
  | @toBreeder st hu hm hs' =>
    have hnum : st.newBornNums (X.shardOf sire) = 0 := by rw [hu.newBornNums, hready.newBornNums]
    rcases hs.of_singleton with ⟨eff, hd, rfl⟩ | ⟨f, hd, rfl⟩
    · cases delivered_of_ok hd with
      | lambda4 hid hroom =>
        rw [hu.newBorns, hready.newBorns, List.length_nil, newBornKey_zero] at hid
        subst hid
        refine ⟨.born hm hs' fun a i => ?_, by simp [Config.carried, Relay.hops]⟩
        dsimp only
        rw [put_myKitties]
        by_cases hkey : sire = a ∧ 2 ^ 255 = i
        · rw [if_pos hkey, if_pos hkey]
          rfl
        · rw [if_neg hkey, if_neg hkey, hu.entries]
    · refine absurd ?_ (lambda4_error hd)
      rw [hnum]
      exact Nat.one_lt_two_pow (by decide)
  | born hm hs' hentries => exact absurd hs.mem_inFlight (Multiset.notMem_zero r)
  | failed hu hgenes => exact absurd hs.mem_inFlight (Multiset.notMem_zero r)

end Breeding

section Runs

variable {X : Chain A} {h : History A X.shardOrder}
  {c c₁ : Config (State A ℕ X.shardOrder) (Relay A X.shardOrder)} {m s : ℕ} {gender : Bool}

/-- **A breeding runs through its stages**, whatever blocks pass. -/
theorem breeding_of_run {st₀ : State A ℕ X.shardOrder} {matron sire : A} {mGenes sGenes : ℕ}
    (hready : Ready st₀ m s matron sire mGenes sGenes)
    (hb : Breeding st₀ m s gender matron sire mGenes sGenes c₁)
    (hr : (machine X).Run Delivering c₁ h c) :
    Breeding st₀ m s gender matron sire mGenes sGenes c := by
  induction hr with
  | nil => exact hb
  | @step h c c' e hr hs hg ih =>
    cases e with
    | deliver r v => exact (ih.deliver hready hs).1
    | call q v =>
      cases q with
      | newBlock height =>
        obtain ⟨-, rfl⟩ := hs.of_call_ok rfl
        dsimp only
        rw [Multiset.coe_nil, add_zero]
        exact ih.newBlock height
      | _ => exact hg.elim

/-- After mints, with nothing in flight, a breeding can start. -/
theorem exists_ready (hm : Minting ws c) (hq : c.inFlight = 0) {matron sire : KittyInfo A}
    (hp : Parents c.state m s matron sire) :
    ∃ w v, ws[m]? = some w ∧ ws[s]? = some v ∧ v.owner = sire.owner ∧
      Ready c.state m s matron.owner v.owner w.genes v.genes := by
  obtain ⟨w, hw, -, -, hwbody⟩ := (hm.holdsMints hq).lookup hp.matron_eq
  obtain ⟨v, hv, -, howner, hvbody⟩ := (hm.holdsMints hq).lookup hp.sire_eq
  obtain ⟨mkitty, hmk, hmbody⟩ := Option.map_eq_some_iff.mp hwbody
  obtain ⟨skitty, hsk, hsbody⟩ := Option.map_eq_some_iff.mp hvbody
  refine ⟨w, v, hw, hv, howner, ⟨sire, hp.sire_eq, howner.symm⟩,
    ⟨mkitty, hmk, congrArg Kitty.genes hmbody⟩, ?_, hm.newBorns, hm.newBornNums⟩
  rw [howner, State.read, hsk, Option.getD_some]
  exact congrArg Kitty.genes hsbody

end Runs

/-! ### The Sei contract -/

section Sei

open Sei.KittyBreeding (mints)

variable {h : Sei.KittyBreeding.History A} {c c' : Config (Sei.KittyBreeding.State A) Empty}
  {m s : ℕ} {gender : Bool}

/-- After mints, the Sei contract holds them too. -/
theorem sei_holdsMints
    (hr : Sei.KittyBreeding.machine.Run Anything ⟨Sei.KittyBreeding.deployed A, 0⟩ h c)
    (hmints : ∀ e ∈ calls h, e.isMint) :
    HoldsMints (mints h) c.state.allKitties c.state.myKitties ∧ c.state.newBorns = [] ∧
      c.state.newBornNums = 0 := by
  revert hmints
  refine hr.call_invariant (I := fun h c => (∀ e ∈ calls h, e.isMint) →
    HoldsMints (mints h) c.state.allKitties c.state.myKitties ∧ c.state.newBorns = [] ∧
      c.state.newBornNums = 0) ?_ ?_ ?_
  · intro _
    exact ⟨⟨rfl, fun _ _ => rfl⟩, rfl, rfl⟩
  · intro h c e eff _ ih _ he hmints
    rw [calls_cons_call, List.forall_mem_cons] at hmints
    obtain ⟨hm, hborn, hnums⟩ := ih hmints.2
    cases e with
    | mint owner genes gender =>
      cases he
      have hlen : c.state.allKitties.length = (mints h).length := by
        simpa using congrArg List.length hm.kitties
      refine ⟨⟨?_, fun a i => ?_⟩, hborn, hnums⟩
      · show (c.state.allKitties ++ [_]).map _ = (mints h ++ [_]).map _
        rw [List.map_append, List.map_append, hm.kitties]
        rfl
      · show ((Sei.KittyBreeding.State.put owner c.state.allKitties.length _ _).myKitties a i).map
          body = mintedAt (mints h ++ [_]) a i
        rw [Sei.KittyBreeding.State.put_myKitties, mintedAt_concat, hlen]
        by_cases hkey : owner = a ∧ (mints h).length = i
        · obtain ⟨rfl, rfl⟩ := hkey
          rw [if_pos ⟨rfl, rfl⟩, if_pos ⟨rfl, rfl⟩]
          rfl
        · rw [if_neg hkey, if_neg hkey]
          exact hm.entries a i
    | newBlock number =>
      cases he
      exact ⟨⟨hm.kitties, hm.entries⟩, hborn, hnums⟩
    | _ => cases hmints.1
  · intro h c e f _ ih _ he hmints
    rw [calls_cons_call, List.forall_mem_cons] at hmints
    cases e with
    | mint owner genes gender => cases he
    | newBlock number => cases he
    | _ => cases hmints.1

/-- On Sei, breeding after mints gives the initiator a newborn if the genes of both parents have a
square root. -/
theorem sei_bornTo_iff (hm : HoldsMints ws c.state.allKitties c.state.myKitties)
    (hborn : c.state.newBorns = []) (hnums : c.state.newBornNums = 0) {w v : Minted A ℕ}
    (hw : ws[m]? = some w) (hv : ws[s]? = some v) (hwgender : w.gender = true)
    (hvgender : v.gender = false) {scope : A} {r : Except Fault Unit}
    (hs : Sei.KittyBreeding.machine.Step c (.call (.breed scope scope m s gender) r) c') :
    BornTo scope m s (Nat.sqrt w.genes * Nat.sqrt v.genes) c.state.myKitties c'.state.myKitties ↔
      w.genes < 2 ^ 256 - 1 ∧ v.genes < 2 ^ 256 - 1 := by
  have hne : m ≠ s := by
    rintro rfl
    cases hw.symm.trans hv
    cases hwgender.symm.trans hvgender
  obtain ⟨matron, hmatron, hmgender, hmgenes⟩ := hm.exists_info hw
  obtain ⟨sire, hsire, hsgender, hsgenes⟩ := hm.exists_info hv
  have hread : ∀ {a i genes}, (c.state.myKitties a i).map Kitty.genes = some genes →
      (c.state.read a i).genes = genes := by
    intro a i genes hmap
    obtain ⟨kitty, hk, rfl⟩ := Option.map_eq_some_iff.mp hmap
    rw [Sei.KittyBreeding.State.read, hk, Option.getD_some]
  cases hcall : Sei.KittyBreeding.machine.call (.breed scope scope m s gender) c.state with
  | error f =>
    obtain ⟨-, rfl⟩ := hs.of_call_error hcall
    refine iff_of_false (hm.not_bornTo hne fun _ _ => rfl) ?_
    rintro ⟨hwlt, hvlt⟩
    have hbreed : Sei.KittyBreeding.Breedable c'.state m s matron sire :=
      ⟨⟨hmatron, hsire, hmgender.trans hwgender, hsgender.trans hvgender⟩,
        (hread hmgenes).symm ▸ hwlt, (hread hsgenes).symm ▸ hvlt, by rw [hnums]; decide⟩
    cases hcall.symm.trans (hbreed.call_eq scope scope gender)
  | ok eff =>
    obtain ⟨-, rfl⟩ := hs.of_call_ok hcall
    obtain ⟨st', hst', rfl⟩ := Sei.KittyBreeding.call_eq_ok.mp hcall
    obtain ⟨matron', sire', hbreed, rfl⟩ := (Sei.KittyBreeding.breed_eq_ok scope).mp hst'
    cases hmatron.symm.trans hbreed.matron_eq
    cases hsire.symm.trans hbreed.sire_eq
    have hlt := And.intro hbreed.matron_genes hbreed.sire_genes
    rw [hread hmgenes, hread hsgenes] at hlt
    obtain ⟨kitty, hk, -⟩ := Option.map_eq_some_iff.mp hmgenes
    refine iff_of_true ((hm.bornTo_iff hne scope (2 ^ 255) fun b i => ?_).mpr rfl) hlt
    show ((Sei.KittyBreeding.State.put scope (newBornKey c.state.newBorns.length) _ _).myKitties
      b i).map body = _
    rw [Sei.KittyBreeding.State.put_myKitties, hborn, List.length_nil, newBornKey_zero,
      hread hmgenes, hread hsgenes]
    by_cases hkey : scope = b ∧ 2 ^ 255 = i
    · rw [if_pos hkey, if_pos hkey]
      rfl
    · rw [if_neg hkey, if_neg hkey, Sei.KittyBreeding.State.touch_body hk]

end Sei

/-! ### The comparison -/

/-- **When breeding agrees with Sei.** After any mints, with their relays delivered, a breeding that
passes the checks runs to its end. It gives the initiator a newborn, and nobody else an entry, if
and only if the initiator owns the sire and the genes of both parents are below the largest value of
the type; on Sei, after the same mints, the first condition is not needed. -/
theorem breed_agrees_iff {X : Chain A} {h : History A X.shardOrder}
    {c c₁ : Config (State A ℕ X.shardOrder) (Relay A X.shardOrder)} {scope : A} {m s : ℕ}
    {gender : Bool} (hr : (machine X).Run Anything ⟨deployed A ℕ X.shardOrder, 0⟩ h c)
    (hmints : ∀ e ∈ calls h, e.isMint) (hq : c.inFlight = 0)
    (hs : (machine X).Step c (.call (.breed scope m s gender) (.ok ())) c₁) :
    ∃ w v, (registered h)[m]? = some w ∧ (registered h)[s]? = some v ∧
      (∃ h₂ c₂, (machine X).Run Delivering c₁ h₂ c₂ ∧ c₂.inFlight = 0) ∧
      (∀ h₂ c₂, (machine X).Run Delivering c₁ h₂ c₂ → c₂.inFlight = 0 →
        (BornTo scope m s (Nat.sqrt w.genes * Nat.sqrt v.genes) c.state.myKitties
            c₂.state.myKitties ↔
          v.owner = scope ∧ w.genes < 2 ^ 256 - 1 ∧ v.genes < 2 ^ 256 - 1)) ∧
      ∀ h' c' r c₂',
        Sei.KittyBreeding.machine.Run Anything ⟨Sei.KittyBreeding.deployed A, 0⟩ h' c' →
        (∀ e ∈ calls h', e.isMint) → Sei.KittyBreeding.mints h' = registered h →
        Sei.KittyBreeding.machine.Step c' (.call (.breed scope scope m s gender) r) c₂' →
        (BornTo scope m s (Nat.sqrt w.genes * Nat.sqrt v.genes) c'.state.myKitties
            c₂'.state.myKitties ↔ w.genes < 2 ^ 256 - 1 ∧ v.genes < 2 ^ 256 - 1) := by
  have hm := minting_of_run hr hmints
  have hmints₀ := hm.holdsMints hq
  cases hs with
  | callOk hcall =>
    obtain ⟨matron, sire, hp, rfl⟩ := (breed_eq_ok scope).mp hcall
    obtain ⟨w, v, hw, hv, howner, hready⟩ := exists_ready hm hq hp
    have hwgender : w.gender = true := by
      obtain ⟨w', hw', hgender, -⟩ := hmints₀.lookup hp.matron_eq
      cases hw.symm.trans hw'
      exact hgender.trans hp.matron_gender
    have hvgender : v.gender = false := by
      obtain ⟨v', hv', hgender, -⟩ := hmints₀.lookup hp.sire_eq
      cases hv.symm.trans hv'
      exact hgender.trans hp.sire_gender
    have hne : m ≠ s := by
      rintro rfl
      cases hw.symm.trans hv
      cases hwgender.symm.trans hvgender
    have hb : Breeding c.state m s gender matron.owner v.owner w.genes v.genes
        ⟨c.state, c.inFlight + ↑[Relay.lambda2 (k := X.shardOrder) matron.owner m s gender]⟩ := by
      rw [hq, zero_add]
      exact .toMatron ⟨rfl, rfl, rfl, fun _ _ => rfl⟩
    refine ⟨w, v, hw, hv, ?_, fun h₂ c₂ hr₂ hq₂ => ?_, fun h' c' r c₂' hr' hmints' heq hs' => ?_⟩
    · obtain ⟨h₂, c₂, hr₂, hq₂, -⟩ := Machine.Run.nil.exists_drained (M := machine X)
        (G := Delivering) (Config.carried Relay.hops) (fun _ _ _ _ => trivial)
        fun hr₂ hs₂ => ((breeding_of_run hready hb hr₂).deliver hready hs₂).2
      exact ⟨h₂, c₂, hr₂, hq₂⟩
    · cases breeding_of_run hready hb hr₂ with
      | toMatron hu => exact absurd hq₂ (Multiset.singleton_ne_zero _)
      | toSire hu => exact absurd hq₂ (Multiset.singleton_ne_zero _)
      | toBreeder hu hmlt hslt => exact absurd hq₂ (Multiset.singleton_ne_zero _)
      | born hmlt hslt hentries =>
        rw [hmints₀.bornTo_iff hne _ _ hentries, and_iff_left ⟨hmlt, hslt⟩]
      | failed hu hgenes =>
        exact iff_of_false (hmints₀.not_bornTo hne hu.entries) fun hall => hgenes hall.2
    · obtain ⟨hm', hborn, hnums⟩ := sei_holdsMints hr' hmints'
      exact sei_bornTo_iff (heq ▸ hm') hborn hnums hw hv hwgender hvgender hs'

/-- Three addresses on one shard. -/
def threeAddresses : Chain (Fin 3) := ⟨0, fun _ => Fin.last 0, .trap⟩

/-- Addresses 0 and 1 get a matron and a sire, and address 1 breeds them: the newborn is its. -/
theorem breed_agrees_sireOwner :
    ∃ (h : History (Fin 3) 0) (c c₁ : Config (State (Fin 3) ℕ 0) (Relay (Fin 3) 0))
      (h₂ : History (Fin 3) 0) (c₂ : Config (State (Fin 3) ℕ 0) (Relay (Fin 3) 0)),
      (machine threeAddresses).Run Anything ⟨deployed (Fin 3) ℕ 0, 0⟩ h c ∧
      calls h = [.mint 1 9 false, .mint 0 4 true] ∧ c.inFlight = 0 ∧
      (machine threeAddresses).Step c (.call (.breed 1 0 1 true) (.ok ())) c₁ ∧
      (machine threeAddresses).Run Delivering c₁ h₂ c₂ ∧ c₂.inFlight = 0 ∧
      BornTo 1 0 1 6 c.state.myKitties c₂.state.myKitties := by
  obtain ⟨⟨h, c⟩, hx, hcalls, hq, hreg, eff, heff, ⟨h₂, c₂⟩, hx₂, hq₂⟩ :
      ∃ r ∈ (machine threeAddresses).exec Anything ⟨deployed (Fin 3) ℕ 0, 0⟩
        [.call (.mint 0 4 true), .call (.mint 1 9 false), .deliver (.lambda0 0 4 true),
          .deliver (.lambda0 1 9 false), .deliver (.lambda1 1 9 1), .deliver (.lambda1 0 4 0)],
        calls r.1 = [.mint 1 9 false, .mint 0 4 true] ∧ r.2.inFlight = 0 ∧
        registered r.1 = [⟨4, true, 0⟩, ⟨9, false, 1⟩] ∧
        ∃ eff ∈ ((machine threeAddresses).call (.breed 1 0 1 true) r.2.state).toOption,
        ∃ r₂ ∈ (machine threeAddresses).exec Delivering ⟨eff.state, r.2.inFlight + eff.relays⟩
          [.deliver (.lambda2 0 0 1 true), .deliver (.lambda3 1 4 0 1 true),
            .deliver (.lambda4 1 0 1 true 6)], r₂.2.inFlight = 0 := by decide
  have hr := Machine.exec_run hx
  have hs := Machine.step_of_mem_toOption _ heff
  have hr₂ := Machine.exec_run hx₂
  obtain ⟨w, v, hw, hv, -, hborn, -⟩ := breed_agrees_iff hr (by rw [hcalls]; decide) hq hs
  rw [hreg] at hw hv
  cases hw
  cases hv
  have hmix : Nat.sqrt 4 * Nat.sqrt 9 = 6 :=
    congrArg₂ (· * ·) (Nat.sqrt_eq 2) (Nat.sqrt_eq 3)
  rw [← hmix]
  exact ⟨h, c, _, h₂, c₂, hr, hcalls, hq, hs, hr₂, hq₂,
    (hborn h₂ c₂ hr₂ hq₂).mpr ⟨rfl, by decide, by decide⟩⟩

/-- Addresses 0 and 1 get a matron and a sire, and address 2 breeds them. The newborn is stored for
address 1, which had no such entry, and not for address 2. -/
theorem newborn_to_sireOwner :
    ∃ (h : History (Fin 3) 0) (c c₁ : Config (State (Fin 3) ℕ 0) (Relay (Fin 3) 0))
      (h₂ : History (Fin 3) 0) (c₂ : Config (State (Fin 3) ℕ 0) (Relay (Fin 3) 0)),
      (machine threeAddresses).Run Anything ⟨deployed (Fin 3) ℕ 0, 0⟩ h c ∧
      calls h = [.mint 1 9 false, .mint 0 4 true] ∧ c.inFlight = 0 ∧
      (machine threeAddresses).Step c (.call (.breed 2 0 1 true) (.ok ())) c₁ ∧
      (machine threeAddresses).Run Delivering c₁ h₂ c₂ ∧ c₂.inFlight = 0 ∧
      c.state.myKitties 1 (2 ^ 255) = none ∧
      c₂.state.myKitties 1 (2 ^ 255) = some ⟨2 ^ 255, 6, 0, 1, 0⟩ ∧
      c₂.state.myKitties 2 (2 ^ 255) = none ∧
      ¬ BornTo 2 0 1 6 c.state.myKitties c₂.state.myKitties := by
  obtain ⟨⟨h, c⟩, hx, hcalls, hq, hbefore, eff, heff, ⟨h₂, c₂⟩, hx₂, hq₂, hafter, hnone⟩ :
      ∃ r ∈ (machine threeAddresses).exec Anything ⟨deployed (Fin 3) ℕ 0, 0⟩
        [.call (.mint 0 4 true), .call (.mint 1 9 false), .deliver (.lambda0 0 4 true),
          .deliver (.lambda0 1 9 false), .deliver (.lambda1 1 9 1), .deliver (.lambda1 0 4 0)],
        calls r.1 = [.mint 1 9 false, .mint 0 4 true] ∧ r.2.inFlight = 0 ∧
        r.2.state.myKitties 1 (2 ^ 255) = none ∧
        ∃ eff ∈ ((machine threeAddresses).call (.breed 2 0 1 true) r.2.state).toOption,
        ∃ r₂ ∈ (machine threeAddresses).exec Delivering ⟨eff.state, r.2.inFlight + eff.relays⟩
          [.deliver (.lambda2 0 0 1 true), .deliver (.lambda3 1 4 0 1 true),
            .deliver (.lambda4 1 0 1 true 6)], r₂.2.inFlight = 0 ∧
          r₂.2.state.myKitties 1 (2 ^ 255) = some ⟨2 ^ 255, 6, 0, 1, 0⟩ ∧
          r₂.2.state.myKitties 2 (2 ^ 255) = none := by decide
  have hs := Machine.step_of_mem_toOption _ heff
  refine ⟨h, c, _, h₂, c₂, Machine.exec_run hx, hcalls, hq, hs, Machine.exec_run hx₂, hq₂, hbefore,
    hafter, hnone, fun hborn => ?_⟩
  have hsome := hborn.others 1 (by decide) (2 ^ 255) (by rw [hafter]; rfl)
  rw [hbefore] at hsome
  cases hsome

end KittyBreeding

end Crystality

end RelayContracts
