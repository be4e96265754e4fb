import RelayContracts.Aptos.Kitty
import RelayContracts.Crystality.KittyOwnership
import RelayContracts.Preda.KittyHistory

/-!
# The parents of a kitty, in four contracts

A breeding needs a matron and a sire. The contracts say so in different places and not all of them
say all of it.

| contract   | both are registered | the matron is one | the sire is one |
|------------|---------------------|-------------------|-----------------|
| PREDA      | yes                 | yes               | commented out   |
| Crystality | yes                 | yes               | yes             |
| Sei        | yes                 | yes               | yes             |
| Aptos      | yes                 | no                | no              |

On PREDA and Crystality the checks are all that the call itself does. On Sei and Aptos the call goes
on to breed, and can fail there for another reason; so the checks are told by the way it fails.

`parents_agree_iff` says for which pairs the four agree on what they should accept, and that the
records of bred kitties then name a matron and a sire, in every state.

## Main definitions

* `Suitable` — a matron and a sire, among kitties of these genders
* `predaAccepts`, `crystalityAccepts`, `seiAccepts`, `aptosAccepts` — the checks of `breed`
* `Lineage` — the records of bred kitties name suitable parents
-/

namespace RelayContracts

namespace KittyParents

open RelayMachine
open Preda (Chain)
open Preda.KittyBreeding (KittyInfo Kitty State deployed)

/-! ### Parents -/

/-- Among kitties of these genders, `m` is a matron and `s` is a sire. -/
def Suitable (gs : List Bool) (m s : ℕ) : Prop := gs[m]? = some true ∧ gs[s]? = some false

instance (gs : List Bool) (m s : ℕ) : Decidable (Suitable gs m s) :=
  inferInstanceAs (Decidable (_ ∧ _))

theorem Suitable.append {gs : List Bool} {m s : ℕ} (hs : Suitable gs m s) (gs' : List Bool) :
    Suitable (gs ++ gs') m s := by
  constructor
  · rw [List.getElem?_append_left (List.getElem?_eq_some_iff.mp hs.1).1, hs.1]
  · rw [List.getElem?_append_left (List.getElem?_eq_some_iff.mp hs.2).1, hs.2]

variable {A γ : Type} {k : ℕ}

/-- The genders of a list of kitties. -/
def genders (kitties : List (KittyInfo A)) : List Bool := kitties.map KittyInfo.gender

theorem genders_eq_some {kitties : List (KittyInfo A)} {i : ℕ} {g : Bool} :
    (genders kitties)[i]? = some g ↔ ∃ info, kitties[i]? = some info ∧ info.gender = g := by
  rw [genders, List.getElem?_map, Option.map_eq_some_iff]

theorem genders_append (kitties kitties' : List (KittyInfo A)) :
    genders (kitties ++ kitties') = genders kitties ++ genders kitties' :=
  List.map_append

theorem lt_length_of_suitable {gs : List Bool} {m s : ℕ} (hs : Suitable gs m s) :
    m < gs.length ∧ s < gs.length :=
  ⟨(List.getElem?_eq_some_iff.mp hs.1).1, (List.getElem?_eq_some_iff.mp hs.2).1⟩

/-- The record is not that of a minted kitty, which has `nobody` for both parents, nor an empty one,
which is what there is under a key that was read before it was written. -/
def IsBred (nobody : ℕ) (kitty : Kitty γ) : Prop :=
  ¬ (kitty.matronId = nobody ∧ kitty.sireId = nobody) ∧
    ¬ (kitty.id = 0 ∧ kitty.matronId = 0 ∧ kitty.sireId = 0)

instance (nobody : ℕ) (kitty : Kitty γ) : Decidable (IsBred nobody kitty) :=
  inferInstanceAs (Decidable (¬ (_ ∧ _) ∧ ¬ (_ ∧ _ ∧ _)))

/-- The records of bred kitties name suitable parents. -/
def Lineage (nobody : ℕ) (gs : List Bool) (myKitties : A → ℕ → Option (Kitty γ)) : Prop :=
  ∀ a key kitty, myKitties a key = some kitty → IsBred nobody kitty →
    Suitable gs kitty.matronId kitty.sireId

namespace Lineage

variable {nobody : ℕ} {gs : List Bool} {myKitties : A → ℕ → Option (Kitty γ)}

/-- More kitties are registered. -/
theorem append (hl : Lineage nobody gs myKitties) (gs' : List Bool) :
    Lineage nobody (gs ++ gs') myKitties :=
  fun a key kitty hk hb => (hl a key kitty hk hb).append gs'

/-- A key that is read. -/
theorem read [Zero γ] (hl : Lineage nobody gs myKitties) (a : A) (key : ℕ)
    (hb : IsBred nobody ((myKitties a key).getD Kitty.zero)) :
    Suitable gs ((myKitties a key).getD Kitty.zero).matronId
      ((myKitties a key).getD Kitty.zero).sireId := by
  cases hk : myKitties a key with
  | none =>
    rw [hk] at hb
    exact absurd ⟨rfl, rfl, rfl⟩ hb.2
  | some kitty =>
    rw [hk] at hb
    exact hl a key kitty hk hb

variable [DecidableEq A]

/-- A record that is written. -/
theorem write (hl : Lineage nobody gs myKitties) {o : A} {key : ℕ} {new : Kitty γ}
    (hnew : IsBred nobody new → Suitable gs new.matronId new.sireId) :
    Lineage nobody gs
      (Function.update myKitties o (Function.update (myKitties o) key (some new))) := by
  intro a i kitty hk hb
  rw [update_update_apply] at hk
  split at hk
  · cases hk
    exact hnew hb
  · exact hl a i kitty hk hb

/-- A minted kitty is no bred one. -/
theorem writeMinted (hl : Lineage nobody gs myKitties) (o : A) (key id : ℕ) (genes : γ) (t : ℕ) :
    Lineage nobody gs (Function.update myKitties o
      (Function.update (myKitties o) key (some ⟨id, genes, nobody, nobody, t⟩))) :=
  hl.write fun hb => absurd ⟨rfl, rfl⟩ hb.1

/-- `lastBreed` is not looked at. -/
theorem touch [Zero γ] (hl : Lineage nobody gs myKitties) (o : A) (key t : ℕ) :
    Lineage nobody gs (Function.update myKitties o (Function.update (myKitties o) key
      (some { (myKitties o key).getD Kitty.zero with lastBreed := t }))) :=
  hl.write fun hb => hl.read o key hb

/-- A record that is erased. -/
theorem erase (hl : Lineage nobody gs myKitties) (o : A) (key : ℕ) :
    Lineage nobody gs (Function.update myKitties o (Function.update (myKitties o) key none)) := by
  intro a i kitty hk hb
  rw [update_update_apply] at hk
  split at hk
  · cases hk
  · exact hl a i kitty hk hb

end Lineage

variable [DecidableEq A]

/-! ### PREDA -/

section Preda

open Preda.KittyBreeding (Call Relay Variant machine kitty called_of_ok delivered_of_ok mints)

/-- The asserts of `breed` hold. -/
def predaAccepts (X : Chain A) (st : State A ℤ X.shardOrder) (initiator : A) (m s : ℕ)
    (gender : Bool) : Prop :=
  ∃ eff, (kitty X).call (.breed initiator m s gender) st = .ok eff

/-- The PREDA contract asks for a matron and for somebody. -/
theorem predaAccepts_iff {X : Chain A} {st : State A ℤ X.shardOrder} (initiator : A) {m s : ℕ}
    (gender : Bool) :
    predaAccepts X st initiator m s gender ↔
      (genders st.allKitties)[m]? = some true ∧ s < st.allKitties.length := by
  rw [genders_eq_some]
  constructor
  · rintro ⟨eff, heff⟩
    cases called_of_ok heff with
    | breed hm hs hg => exact ⟨⟨_, hm, hg⟩, hs⟩
  · rintro ⟨⟨matron, hm, hg⟩, hs⟩
    refine ⟨⟨st, (), [.breedMatron matron.owner initiator s m gender]⟩, ?_⟩
    show Preda.KittyBreeding.breed initiator m s gender st = _
    rw [Preda.KittyBreeding.breed, if_pos (List.getElem?_eq_some_iff.mp hm).1, if_pos hs, hm]
    exact if_pos hg

/-- The state of the PREDA contract after mints of kitties of these genders. -/
def PredaMinted (X : Chain A) (gs : List Bool) (st : State A ℤ X.shardOrder) : Prop :=
  ∃ h c, (kitty X).Run Anything ⟨deployed A ℤ X.shardOrder, 0⟩ h c ∧
    (∀ q ∈ calls h, q.isMint ∨ ∃ n, q = .newBlock n) ∧
    (mints h).map Preda.KittyBreeding.Minted.gender = gs ∧ c.state = st

/-- The list has their genders. -/
theorem PredaMinted.genders_eq {X : Chain A} {gs : List Bool} {st : State A ℤ X.shardOrder}
    (hm : PredaMinted X gs st) : genders st.allKitties = gs := by
  obtain ⟨h, c, hr, hcalls, rfl, rfl⟩ := hm
  refine (hr.invariant (I := fun h c => (∀ q ∈ calls h, q.isMint ∨ ∃ n, q = .newBlock n) →
    genders c.state.allKitties = (mints h).map Preda.KittyBreeding.Minted.gender ∧
    ∀ r ∈ c.inFlight, ∃ self genes gender id, r = .storeMinted self genes gender id)
    ?_ ?_ ?_ ?_ ?_ hcalls).1
  · intro _
    exact ⟨rfl, fun r hr => absurd hr (Multiset.notMem_zero r)⟩
  · intro h c q eff _ ih _ hq hcalls
    rw [calls_cons_call, List.forall_mem_cons] at hcalls
    obtain ⟨hgs, hflight⟩ := ih hcalls.2
    rcases hcalls.1 with hmint | ⟨n, rfl⟩
    · cases q with
      | mint genes gender owner =>
        cases hq
        refine ⟨?_, fun r hr => ?_⟩
        · rw [Preda.KittyBreeding.mints_cons, List.map_append, ← hgs]
          exact List.map_append
        · rcases Multiset.mem_add.mp hr with hr | hr
          · exact hflight r hr
          · exact ⟨owner, genes, gender, _, List.mem_singleton.mp (Multiset.mem_coe.mp hr)⟩
      | _ => cases hmint
    · cases hq
      refine ⟨hgs, fun r hr => ?_⟩
      rw [Multiset.coe_nil, add_zero] at hr
      exact hflight r hr
  · intro h c q f _ ih _ _ hcalls
    rw [calls_cons_call, List.forall_mem_cons] at hcalls
    rw [Preda.KittyBreeding.mints_cons, Preda.KittyBreeding.minted?_rejected, Option.toList_none,
      List.append_nil]
    exact ih hcalls.2
  · intro h st r rest eff _ ih _ hd hcalls
    obtain ⟨hgs, hflight⟩ := ih hcalls
    obtain ⟨self, genes, gender, id, rfl⟩ := hflight r (Multiset.mem_cons_self r rest)
    cases hd
    refine ⟨hgs, fun r' hr' => ?_⟩
    rw [Multiset.coe_nil, add_zero] at hr'
    exact hflight r' (Multiset.mem_cons_of_mem hr')
  · intro h st r rest f _ ih _ _ hcalls
    obtain ⟨hgs, hflight⟩ := ih hcalls
    exact ⟨hgs, fun r' hr' => hflight r' (Multiset.mem_cons_of_mem hr')⟩

/-- Every pair that is bred is one of a matron and a sire, if both are registered. -/
def PredaPaired (_ : List (Event (Call A γ k) (Relay A γ) Unit Fault))
    (c : Config (State A γ k) (Relay A γ)) : Event (Call A γ k) (Relay A γ) Unit Fault → Prop
  | .call (.breed _ m s _) _ => m < c.state.allKitties.length → s < c.state.allKitties.length →
    Suitable (genders c.state.allKitties) m s
  | _ => True

instance (h : List (Event (Call A γ k) (Relay A γ) Unit Fault))
    (c : Config (State A γ k) (Relay A γ)) (e : Event (Call A γ k) (Relay A γ) Unit Fault) :
    Decidable (PredaPaired h c e) :=
  match e with
  | .call (.breed _ m s _) _ =>
    inferInstanceAs (Decidable (m < c.state.allKitties.length → s < c.state.allKitties.length →
      Suitable (genders c.state.allKitties) m s))
  | .call (.mint _ _ _) _ | .call (.registerNewBorns _) _ | .call (.newBlock _) _
  | .deliver _ _ => isTrue trivial

/-- The parents a relay knows of are suitable. -/
def predaBears (gs : List Bool) : Relay A γ → Prop
  | .breedMatron _ _ s m _ => Suitable gs m s
  | .breedSire _ _ _ s m _ => Suitable gs m s
  | .storeNewBorn _ s m _ _ _ => Suitable gs m s
  | _ => True

omit [DecidableEq A] in
theorem predaBears_append {gs : List Bool} {r : Relay A γ} (hr : predaBears gs r)
    (gs' : List Bool) : predaBears (gs ++ gs') r := by
  cases r with
  | breedMatron self initiator s m gender => exact Suitable.append hr gs'
  | breedSire self initiator mGenes s m gender => exact Suitable.append hr gs'
  | storeNewBorn self s m gender newGenes birthTime => exact Suitable.append hr gs'
  | _ => trivial

/-- Where a run stands that breeds only suitable pairs. -/
structure PredaBorne (c : Config (State A γ k) (Relay A γ)) : Prop where
  /-- The kitties that are held have a lineage. -/
  lineage : Lineage 0xffffffff (genders c.state.allKitties) c.state.myKitties
  /-- Those on their way will have one. -/
  inFlight : ∀ r ∈ c.inFlight, predaBears (genders c.state.allKitties) r

section Steps

variable [Zero γ] {X : Chain A} {V : Variant A γ X.shardOrder}
  {h : List (Event (Call A γ X.shardOrder) (Relay A γ) Unit Fault)}
  {c : Config (State A γ X.shardOrder) (Relay A γ)}
  {eff : Effect (State A γ X.shardOrder) (Relay A γ) Unit}

theorem PredaBorne.call (hb : PredaBorne c) {q : Call A γ X.shardOrder}
    (hq : (machine X V).call q c.state = .ok eff)
    (hg : PredaPaired h c (.call q (.ok eff.value))) :
    PredaBorne ⟨eff.state, c.inFlight + eff.relays⟩ := by
  obtain ⟨hl, hflight⟩ := hb
  cases called_of_ok hq with
  | mint genes gender owner =>
    constructor
    · rw [genders_append]
      exact hl.append _
    · rw [genders_append]
      refine forall_mem_add_coe.mpr ⟨fun r hr => ?_, by simp [predaBears]⟩
      exact predaBears_append (hflight r hr) _
  | @breed initiator m s gender matron hm hs hgender =>
    refine ⟨hl, forall_mem_add_coe.mpr ⟨hflight, fun r hr => ?_⟩⟩
    rw [List.mem_singleton.mp hr]
    exact hg (List.getElem?_eq_some_iff.mp hm).1 hs
  | register hsome => exact ⟨hl, forall_mem_add_coe.mpr ⟨hflight, by simp [predaBears]⟩⟩
  | registerNone hnone => exact ⟨hl, forall_mem_add_coe.mpr ⟨hflight, by simp⟩⟩
  | newBlock height => exact ⟨hl, forall_mem_add_coe.mpr ⟨hflight, by simp⟩⟩

theorem PredaBorne.deliver {st : State A γ X.shardOrder} {r : Relay A γ}
    {rest : Multiset (Relay A γ)} (hb : PredaBorne ⟨st, r ::ₘ rest⟩)
    (hd : (machine X V).relay r st = .ok eff) : PredaBorne ⟨eff.state, rest + eff.relays⟩ := by
  obtain ⟨hl, hflight⟩ := hb
  obtain ⟨hr, hrest⟩ := Multiset.forall_mem_cons.mp hflight
  cases delivered_of_ok hd with
  | storeMinted self genes gender id =>
    exact ⟨hl.writeMinted self id id genes st.height, forall_mem_add_coe.mpr ⟨hrest, by simp⟩⟩
  | @breedMatron self initiator s m gender sire hs =>
    exact ⟨hl.touch self m st.height,
      forall_mem_add_coe.mpr ⟨hrest, List.forall_mem_singleton.mpr hr⟩⟩
  | breedSire hmix =>
    exact ⟨hl, forall_mem_add_coe.mpr ⟨hrest, List.forall_mem_singleton.mpr hr⟩⟩
  | storeNewBorn hid hent =>
    obtain ⟨-, hkitties, hentries⟩ := V.enter_frame hent
    constructor
    · dsimp only
      rw [hkitties, hentries]
      exact hl.write fun _ => hr
    · dsimp only
      rw [hkitties]
      exact forall_mem_add_coe.mpr ⟨hrest, by simp⟩
  | collectNewBorns newBorns =>
    constructor
    · rw [genders_append]
      exact hl.append _
    · rw [genders_append]
      refine forall_mem_add_coe.mpr ⟨fun r hr => ?_, fun r hr => ?_⟩
      · exact predaBears_append (hrest r hr) _
      · obtain ⟨self, i, id, rfl⟩ := Preda.KittyBreeding.exists_of_mem_registrations hr
        trivial
  | registerNewBorn self newBornIndex id =>
    exact ⟨(hl.write fun hb => hl.read self _ hb).erase self _,
      forall_mem_add_coe.mpr ⟨hrest, by simp⟩⟩

/-- **The lineage of a PREDA kitty**, in runs that breed only suitable pairs. -/
theorem preda_lineage (hr : (machine X V).Run PredaPaired ⟨deployed A γ X.shardOrder, 0⟩ h c) :
    Lineage 0xffffffff (genders c.state.allKitties) c.state.myKitties := by
  refine (hr.invariant (I := fun _ c => PredaBorne c) ?_ ?_ ?_ ?_ ?_).lineage
  · refine ⟨fun a key kitty hk => ?_, fun r hr => absurd hr (Multiset.notMem_zero r)⟩
    cases hk
  · intro h c q eff _ ih hg hq
    exact ih.call hq hg
  · intro h c q f _ ih _ _
    exact ih
  · intro h st r rest eff _ ih _ hd
    exact ih.deliver hd
  · intro h st r rest f _ ih _ _
    exact ⟨ih.lineage, (Multiset.forall_mem_cons.mp ih.inFlight).2⟩

end Steps

end Preda

/-! ### Crystality -/

section Crystality

open Crystality.KittyBreeding (Relay machine delivered_of_ok registered)

/-- The requirements of `breed` hold. -/
def crystalityAccepts (X : Chain A) (st : State A ℕ X.shardOrder) (scope : A) (m s : ℕ)
    (gender : Bool) : Prop :=
  ∃ eff, (machine X).call (.breed scope m s gender) st = .ok eff

/-- The Crystality contract asks for a matron and a sire. -/
theorem crystalityAccepts_iff {X : Chain A} {st : State A ℕ X.shardOrder} (scope : A) {m s : ℕ}
    (gender : Bool) :
    crystalityAccepts X st scope m s gender ↔ Suitable (genders st.allKitties) m s := by
  rw [Suitable, genders_eq_some, genders_eq_some]
  constructor
  · rintro ⟨eff, heff⟩
    obtain ⟨matron, sire, hp, -⟩ := (Crystality.KittyBreeding.breed_eq_ok scope).mp heff
    exact ⟨⟨matron, hp.matron_eq, hp.matron_gender⟩, ⟨sire, hp.sire_eq, hp.sire_gender⟩⟩
  · rintro ⟨⟨matron, hm, hmg⟩, ⟨sire, hs, hsg⟩⟩
    exact ⟨_, (Crystality.KittyBreeding.breed_eq_ok scope).mpr
      ⟨matron, sire, ⟨hm, hs, hmg, hsg⟩, rfl⟩⟩

omit [DecidableEq A] in
/-- The genders of a list that has these genders and owners. -/
theorem genders_of_map_eq {kitties : List (KittyInfo A)}
    {ws : List (Preda.KittyBreeding.Minted A ℕ)}
    (h : kitties.map (fun n => (n.gender, n.owner)) = ws.map fun w => (w.gender, w.owner)) :
    genders kitties = ws.map Preda.KittyBreeding.Minted.gender := by
  have hfst := congrArg (List.map Prod.fst) h
  rw [List.map_map, List.map_map] at hfst
  exact hfst

/-- The state of the Crystality contract after mints of kitties of these genders, in the order in
which they were entered in the list. -/
def CrystalityMinted (X : Chain A) (gs : List Bool) (st : State A ℕ X.shardOrder) : Prop :=
  ∃ h c, (machine X).Run Anything ⟨deployed A ℕ X.shardOrder, 0⟩ h c ∧
    (∀ q ∈ calls h, q.isMint) ∧
    (registered h).map Preda.KittyBreeding.Minted.gender = gs ∧ c.state = st

theorem CrystalityMinted.genders_eq {X : Chain A} {gs : List Bool}
    {st : State A ℕ X.shardOrder} (hm : CrystalityMinted X gs st) :
    genders st.allKitties = gs := by
  obtain ⟨h, c, hr, hcalls, rfl, rfl⟩ := hm
  exact genders_of_map_eq (Crystality.KittyBreeding.minting_of_run hr hcalls).kitties

/-- The parents a relay knows of are suitable. -/
def crystalityBears (gs : List Bool) : Relay A k → Prop
  | .lambda2 _ m s _ => Suitable gs m s
  | .lambda3 _ _ m s _ => Suitable gs m s
  | .lambda4 _ m s _ _ => Suitable gs m s
  | _ => True

omit [DecidableEq A] in
theorem crystalityBears_append {gs : List Bool} {r : Relay A k} (hr : crystalityBears gs r)
    (gs' : List Bool) : crystalityBears (gs ++ gs') r := by
  cases r with
  | lambda2 scope m s gender => exact Suitable.append hr gs'
  | lambda3 scope mGenes m s gender => exact Suitable.append hr gs'
  | lambda4 scope m s gender newGenes => exact Suitable.append hr gs'
  | _ => trivial

/-- Where a run of operations stands. -/
structure CrystalityBorne (c : Config (State A ℕ k) (Relay A k)) : Prop where
  /-- The kitties that are held have a lineage. -/
  lineage : Lineage (2 ^ 256 - 1) (genders c.state.allKitties) c.state.myKitties
  /-- Those on their way will have one. -/
  inFlight : ∀ r ∈ c.inFlight, crystalityBears (genders c.state.allKitties) r

section Steps

variable {X : Chain A} {h : Crystality.KittyBreeding.History A X.shardOrder}
  {c : Config (State A ℕ X.shardOrder) (Relay A X.shardOrder)}
  {eff : Effect (State A ℕ X.shardOrder) (Relay A X.shardOrder) Unit}

theorem CrystalityBorne.call (hb : CrystalityBorne c)
    {q : Crystality.KittyBreeding.Call A X.shardOrder} (hop : q.isOperation)
    (hq : (machine X).call q c.state = .ok eff) :
    CrystalityBorne ⟨eff.state, c.inFlight + eff.relays⟩ := by
  obtain ⟨hl, hflight⟩ := hb
  cases q with
  | mint owner genes gender =>
    cases hq
    exact ⟨hl, forall_mem_add_coe.mpr ⟨hflight, by simp [crystalityBears]⟩⟩
  | breed scope m s gender =>
    have hsuit := (crystalityAccepts_iff scope gender).mp ⟨eff, hq⟩
    obtain ⟨matron, sire, -, rfl⟩ := (Crystality.KittyBreeding.breed_eq_ok scope).mp hq
    exact ⟨hl, forall_mem_add_coe.mpr ⟨hflight, List.forall_mem_singleton.mpr hsuit⟩⟩
  | finalize scope =>
    cases hq
    exact ⟨hl, forall_mem_add_coe.mpr ⟨hflight, by simp [crystalityBears]⟩⟩
  | newBlock height =>
    cases hq
    exact ⟨hl, forall_mem_add_coe.mpr ⟨hflight, by simp⟩⟩
  | direct r => cases hop

theorem CrystalityBorne.deliver {st : State A ℕ X.shardOrder} {r : Relay A X.shardOrder}
    {rest : Multiset (Relay A X.shardOrder)} (hb : CrystalityBorne ⟨st, r ::ₘ rest⟩)
    (hd : (machine X).relay r st = .ok eff) :
    CrystalityBorne ⟨eff.state, rest + eff.relays⟩ := by
  obtain ⟨hl, hflight⟩ := hb
  obtain ⟨hr, hrest⟩ := Multiset.forall_mem_cons.mp hflight
  cases delivered_of_ok hd with
  | lambda0 owner genes gender =>
    constructor
    · rw [genders_append]
      exact hl.append _
    · rw [genders_append]
      refine forall_mem_add_coe.mpr ⟨fun r hr => ?_, by simp [crystalityBears]⟩
      exact crystalityBears_append (hrest r hr) _
  | lambda1 scope genes id =>
    exact ⟨hl.writeMinted scope id id genes st.height, forall_mem_add_coe.mpr ⟨hrest, by simp⟩⟩
  | @lambda2 scope m s gender sire hs =>
    exact ⟨hl.touch scope m st.height,
      forall_mem_add_coe.mpr ⟨hrest, List.forall_mem_singleton.mpr hr⟩⟩
  | lambda3 hm hs =>
    exact ⟨hl, forall_mem_add_coe.mpr ⟨hrest, List.forall_mem_singleton.mpr hr⟩⟩
  | lambda4 hid hroom => exact ⟨hl.write fun _ => hr, forall_mem_add_coe.mpr ⟨hrest, by simp⟩⟩
  | lambda5 => exact ⟨hl, forall_mem_add_coe.mpr ⟨hrest, by simp [crystalityBears]⟩⟩
  | lambda6 hsome => exact ⟨hl, forall_mem_add_coe.mpr ⟨hrest, by simp [crystalityBears]⟩⟩
  | lambda6None hnone => exact ⟨hl, forall_mem_add_coe.mpr ⟨hrest, by simp⟩⟩
  | lambda7 addresses =>
    refine ⟨hl, forall_mem_add_coe.mpr ⟨hrest, fun r' hr' => ?_⟩⟩
    obtain ⟨x, -, rfl⟩ := List.mem_map.mp hr'
    trivial
  | lambda8 scope i id =>
    exact ⟨(hl.write fun hb => hl.read scope _ hb).erase scope _,
      forall_mem_add_coe.mpr ⟨hrest, by simp⟩⟩

/-- **The lineage of a Crystality kitty**, if no handler is called directly. -/
theorem crystality_lineage (hr : (machine X).Run Anything ⟨deployed A ℕ X.shardOrder, 0⟩ h c)
    (hcalls : ∀ q ∈ calls h, q.isOperation) :
    Lineage (2 ^ 256 - 1) (genders c.state.allKitties) c.state.myKitties := by
  refine (hr.invariant (I := fun h c => (∀ q ∈ calls h, q.isOperation) → CrystalityBorne c)
    ?_ ?_ ?_ ?_ ?_ hcalls).lineage
  · intro _
    refine ⟨fun a key kitty hk => ?_, fun r hr => absurd hr (Multiset.notMem_zero r)⟩
    cases hk
  · intro h c q eff _ ih _ hq hcalls
    rw [calls_cons_call, List.forall_mem_cons] at hcalls
    exact (ih hcalls.2).call hcalls.1 hq
  · intro h c q f _ ih _ _ hcalls
    rw [calls_cons_call, List.forall_mem_cons] at hcalls
    exact ih hcalls.2
  · intro h st r rest eff _ ih _ hd hcalls
    exact (ih hcalls).deliver hd
  · intro h st r rest f _ ih _ _ hcalls
    have hb := ih hcalls
    exact ⟨hb.lineage, (Multiset.forall_mem_cons.mp hb.inFlight).2⟩

end Steps

end Crystality

/-! ### Sei -/

section Sei

open Sei.KittyBreeding (machine call_eq_ok)

/-- The requirements of `breed` hold: if it fails it is for another reason. -/
def seiAccepts (st : Sei.KittyBreeding.State A) (origin scope : A) (m s : ℕ) (gender : Bool) :
    Prop :=
  machine.call (.breed origin scope m s gender) st ≠ .error .assertion

/-- Past the requirements, only arithmetic can fail. -/
theorem addMGenes_ne_assertion (st : Sei.KittyBreeding.State A) (origin scope : A) (m s : ℕ)
    (gender : Bool) :
    Sei.KittyBreeding.addMGenes origin scope m s gender st ≠ .error .assertion := by
  refine bind_ne_error ?_ fun sire _ => bind_ne_error ?_ fun newGenes _ => bind_ne_error ?_ ?_
  · rw [Sei.KittyBreeding.State.info]
    split <;> simp
  · rw [Sei.KittyBreeding.genesMix_eq, Sei.KittyBreeding.mixture_eq, mulSqrtU_trap]
    split <;> simp
  · rw [addU]
    split <;> simp
  · intro n _
    simp

/-- The Sei contract asks for a matron and a sire. -/
theorem seiAccepts_iff {st : Sei.KittyBreeding.State A} (origin scope : A) {m s : ℕ}
    (gender : Bool) :
    seiAccepts st origin scope m s gender ↔ Suitable (genders st.allKitties) m s := by
  have hcall : seiAccepts st origin scope m s gender ↔
      Sei.KittyBreeding.breed origin scope m s gender st ≠ .error .assertion :=
    not_congr Sei.KittyBreeding.call_eq_error
  rw [hcall, Suitable, genders_eq_some, genders_eq_some]
  constructor
  · intro hpass
    rw [Sei.KittyBreeding.breed] at hpass
    split at hpass
    · rename_i hm
      split at hpass
      · rename_i hs
        have hmatron := List.getElem?_eq_getElem hm
        have hsire := List.getElem?_eq_getElem hs
        rw [Sei.KittyBreeding.State.info_eq_ok.mpr hmatron, ok_bind] at hpass
        split at hpass
        · rename_i hmg
          rw [Sei.KittyBreeding.State.info_eq_ok.mpr hsire, ok_bind] at hpass
          split at hpass
          · rename_i hsg
            exact ⟨⟨_, hmatron, hmg⟩, ⟨_, hsire, by simpa using hsg⟩⟩
          · exact absurd rfl hpass
        · exact absurd rfl hpass
      · exact absurd rfl hpass
    · exact absurd rfl hpass
  · rintro ⟨⟨matron, hmatron, hmg⟩, ⟨sire, hsire, hsg⟩⟩
    rw [Sei.KittyBreeding.breed, if_pos (List.getElem?_eq_some_iff.mp hmatron).1,
      if_pos (List.getElem?_eq_some_iff.mp hsire).1,
      Sei.KittyBreeding.State.info_eq_ok.mpr hmatron, ok_bind, if_pos hmg,
      Sei.KittyBreeding.State.info_eq_ok.mpr hsire, ok_bind, if_pos (by simp [hsg])]
    exact addMGenes_ne_assertion st origin matron.owner m s gender

/-- The state of the Sei contract after mints of kitties of these genders. -/
def SeiMinted (gs : List Bool) (st : Sei.KittyBreeding.State A) : Prop :=
  ∃ h c, machine.Run Anything ⟨Sei.KittyBreeding.deployed A, 0⟩ h c ∧
    (∀ q ∈ calls h, q.isMint) ∧
    (Sei.KittyBreeding.mints h).map Preda.KittyBreeding.Minted.gender = gs ∧ c.state = st

theorem SeiMinted.genders_eq {gs : List Bool} {st : Sei.KittyBreeding.State A}
    (hm : SeiMinted gs st) : genders st.allKitties = gs := by
  obtain ⟨h, c, hr, hcalls, rfl, rfl⟩ := hm
  exact genders_of_map_eq (Crystality.KittyBreeding.sei_holdsMints hr hcalls).1.kitties

/-- **The lineage of a Sei kitty**, if no helper function is called directly. -/
theorem sei_lineage {h : Sei.KittyBreeding.History A}
    {c : Config (Sei.KittyBreeding.State A) Empty}
    (hr : machine.Run Anything ⟨Sei.KittyBreeding.deployed A, 0⟩ h c)
    (hcalls : ∀ q ∈ calls h, q.isOperation) :
    Lineage (2 ^ 256 - 1) (genders c.state.allKitties) c.state.myKitties := by
  revert hcalls
  refine hr.call_invariant (I := fun h c => (∀ q ∈ calls h, q.isOperation) →
    Lineage (2 ^ 256 - 1) (genders c.state.allKitties) c.state.myKitties) ?_ ?_ ?_
  · intro _ a key kitty hk
    cases hk
  · intro h c q eff _ ih _ hq hcalls
    rw [calls_cons_call, List.forall_mem_cons] at hcalls
    have hl := ih hcalls.2
    obtain ⟨st', hst', rfl⟩ := call_eq_ok.mp hq
    cases q with
    | mint owner genes gender =>
      cases hst'
      have hgs : genders (c.state.allKitties ++ [⟨gender, c.state.blockNumber, owner⟩]) =
        genders c.state.allKitties ++ [gender] := List.map_append
      show Lineage _ (genders (c.state.allKitties ++ [_])) _
      rw [hgs]
      exact (hl.append _).writeMinted owner _ _ genes c.state.blockNumber
    | breed origin scope m s gender =>
      obtain ⟨matron, sire, hb, rfl⟩ := (Sei.KittyBreeding.breed_eq_ok scope).mp hst'
      have hsuit : Suitable (genders c.state.allKitties) m s :=
        ⟨genders_eq_some.mpr ⟨matron, hb.matron_eq, hb.matron_gender⟩,
          genders_eq_some.mpr ⟨sire, hb.sire_eq, hb.sire_gender⟩⟩
      exact (hl.touch matron.owner m c.state.blockNumber).write fun _ => hsuit
    | newBlock number =>
      cases hst'
      exact hl
    | _ => cases hcalls.1
  · intro h c q f _ ih _ _ hcalls
    rw [calls_cons_call, List.forall_mem_cons] at hcalls
    exact ih hcalls.2

end Sei

/-! ### Aptos -/

section Aptos

open Aptos.KittyBreeding (Storage machine call_eq_ok)

/-- Nothing is borrowed past the end of the list. -/
def aptosAccepts (st : Storage A) (sender global : A) (m s : ℕ) (gender : Bool) : Prop :=
  machine.call (.breed sender global m s gender) st ≠ .error .indexOutOfBounds

omit [DecidableEq A] in
theorem borrowMyKitties_ne_indexOutOfBounds (st : Storage A) (a : A) :
    Aptos.KittyBreeding.borrowMyKitties a st ≠ .error .indexOutOfBounds := by
  rw [Aptos.KittyBreeding.borrowMyKitties]
  split <;> simp

theorem borrowKitty_ne_indexOutOfBounds (table : ℕ → Option Aptos.KittyBreeding.Kitty) (key : ℕ) :
    Aptos.KittyBreeding.borrowKitty table key ≠ .error .indexOutOfBounds := by
  rw [Aptos.KittyBreeding.borrowKitty]
  split <;> simp

theorem addNewKitty_ne_indexOutOfBounds (st : Storage A) (owner : A) (genes id mId sId : ℕ) :
    Aptos.KittyBreeding.addNewKitty owner genes id mId sId st ≠ .error .indexOutOfBounds := by
  refine bind_ne_error (borrowMyKitties_ne_indexOutOfBounds st owner) fun table _ => ?_
  split <;> simp

theorem arithmetic_ne_indexOutOfBounds {α : Type} (x : Except Fault α) :
    Aptos.KittyBreeding.arithmetic x ≠ .error .indexOutOfBounds := by
  rw [Aptos.KittyBreeding.arithmetic]
  cases x <;> simp [faultAs]

/-- The Aptos module asks for two kitties. -/
theorem aptosAccepts_iff {st : Storage A} {global : A}
    {kitties : List (Aptos.KittyBreeding.KittyInfo A)}
    (hkitties : st.allKitties global = some kitties) (sender : A) {m s : ℕ} (gender : Bool) :
    aptosAccepts st sender global m s gender ↔ m < kitties.length ∧ s < kitties.length := by
  have hcall : aptosAccepts st sender global m s gender ↔
      Aptos.KittyBreeding.breed sender global m s gender st ≠ .error .indexOutOfBounds :=
    not_congr Aptos.KittyBreeding.call_eq_error
  have hborrow : ∀ i, (∃ info, Aptos.KittyBreeding.borrowInfo kitties i = .ok info) ∨
      kitties.length ≤ i ∧
        Aptos.KittyBreeding.borrowInfo kitties i = .error .indexOutOfBounds := by
    intro i
    rcases Nat.lt_or_ge i kitties.length with hi | hi
    · exact .inl ⟨_, Aptos.KittyBreeding.borrowInfo_eq_ok.mpr (List.getElem?_eq_getElem hi)⟩
    · refine .inr ⟨hi, ?_⟩
      rw [Aptos.KittyBreeding.borrowInfo, List.getElem?_eq_none hi]
  rw [hcall, Aptos.KittyBreeding.breed, Aptos.KittyBreeding.borrowAllKitties_eq_ok.mpr hkitties,
    ok_bind]
  rcases hborrow m with ⟨matron, hm⟩ | ⟨hm, hmerr⟩
  · rcases hborrow s with ⟨sire, hs⟩ | ⟨hs, hserr⟩
    · rw [hm, hs, ok_bind, ok_bind]
      have hlt : ∀ {i info}, Aptos.KittyBreeding.borrowInfo kitties i = .ok info →
          i < kitties.length := fun hi =>
        (List.getElem?_eq_some_iff.mp (Aptos.KittyBreeding.borrowInfo_eq_ok.mp hi)).1
      refine iff_of_true ?_ ⟨hlt hm, hlt hs⟩
      -- Nothing after the two lookups looks at the list.
      refine bind_ne_error (borrowMyKitties_ne_indexOutOfBounds st _) fun mTable _ =>
        bind_ne_error (borrowKitty_ne_indexOutOfBounds mTable m) fun mKitty _ =>
        bind_ne_error (borrowMyKitties_ne_indexOutOfBounds st _) fun sTable _ =>
        bind_ne_error (borrowKitty_ne_indexOutOfBounds sTable s) fun sKitty _ =>
        bind_ne_error ?_ fun newGenes _ =>
        bind_ne_error (addNewKitty_ne_indexOutOfBounds st _ _ _ _ _) fun st' _ => ?_
      · rw [Aptos.KittyBreeding.genesMix_eq]
        exact arithmetic_ne_indexOutOfBounds _
      · split
        · simp
        · exact bind_ne_error (arithmetic_ne_indexOutOfBounds _) fun n _ => by simp
    · rw [hm, hserr, ok_bind, error_bind]
      exact iff_of_false (fun hne => hne rfl) fun hlt => absurd hlt.2 (Nat.not_lt.mpr hs)
  · rw [hmerr, error_bind]
    exact iff_of_false (fun hne => hne rfl) fun hlt => absurd hlt.1 (Nat.not_lt.mpr hm)

/-- The genders of the kitties minted into a list, oldest first. -/
def mintedInto (global : A) : Aptos.KittyBreeding.History A → List Bool
  | [] => []
  | .call (.mint _ g _ gender) (.ok _) :: h =>
    if g = global then mintedInto global h ++ [gender] else mintedInto global h
  | _ :: h => mintedInto global h

/-- Whether a transaction is one of `initialize` or `mint`. -/
def isAptosMint : Aptos.KittyBreeding.Call A → Bool
  | .breed _ _ _ _ _ => false
  | _ => true

/-- The storage of the Aptos module after mints of kitties of these genders into a list. -/
def AptosMinted (global : A) (gs : List Bool) (st : Storage A) : Prop :=
  ∃ h c, machine.Run Anything ⟨Aptos.KittyBreeding.empty A, 0⟩ h c ∧
    (∀ q ∈ calls h, isAptosMint q) ∧ (c.state.allKitties global).isSome ∧
    mintedInto global h = gs ∧ c.state = st

theorem AptosMinted.genders_eq {global : A} {gs : List Bool} {st : Storage A}
    (hm : AptosMinted global gs st) :
    ∃ kitties, st.allKitties global = some kitties ∧
      kitties.map Aptos.KittyBreeding.KittyInfo.gender = gs := by
  obtain ⟨h, c, hr, -, hsome, rfl, rfl⟩ := hm
  have hall : ((c.state.allKitties global).getD []).map Aptos.KittyBreeding.KittyInfo.gender =
      mintedInto global h := by
    refine hr.call_invariant (I := fun h c => ((c.state.allKitties global).getD []).map
      Aptos.KittyBreeding.KittyInfo.gender = mintedInto global h) rfl ?_ ?_
    · intro h c q eff _ ih _ hq
      obtain ⟨st', hst', rfl⟩ := call_eq_ok.mp hq
      cases q with
      | initializeGlobal g =>
        obtain ⟨hnone, -, rfl⟩ := Aptos.KittyBreeding.initializeGlobal_eq_ok.mp hst'
        refine Eq.trans ?_ ih
        dsimp only
        by_cases hg : global = g
        · rw [hg, Function.update_self, hnone]
          rfl
        · rw [Function.update_of_ne hg]
      | mint owner g genes gender =>
        obtain ⟨kitties, hkitties, -, rfl⟩ := Aptos.KittyBreeding.mint_eq_ok.mp hst'
        show ((Function.update c.state.allKitties g _ global).getD []).map _ =
          if g = global then mintedInto global h ++ [gender] else mintedInto global h
        by_cases hg : g = global
        · rw [hg, Function.update_self, if_pos rfl, ← ih, Option.getD_some, List.map_append]
          rfl
        · rw [Function.update_of_ne (Ne.symm hg), if_neg hg, ih]
      | breed sender g m s gender =>
        obtain ⟨_, _, _, _, _, _, -, rfl⟩ := (Aptos.KittyBreeding.breed_eq_ok gender).mp hst'
        exact ih
    · intro h c q f _ ih _ _
      cases q <;> exact ih
  obtain ⟨kitties, hkitties⟩ := Option.isSome_iff_exists.mp hsome
  rw [hkitties] at hall
  exact ⟨kitties, hkitties, hall⟩

/-- Every pair that is bred is one of a matron and a sire, if both are listed. -/
def AptosPaired (_ : Aptos.KittyBreeding.History A) (c : Config (Storage A) Empty) :
    Event (Aptos.KittyBreeding.Call A) Empty Unit Aptos.KittyBreeding.Abort → Prop
  | .call (.breed _ global m s _) _ => ∀ kitties, c.state.allKitties global = some kitties →
    m < kitties.length → s < kitties.length →
    Suitable (kitties.map Aptos.KittyBreeding.KittyInfo.gender) m s
  | _ => True

/-- The records of bred kitties name suitable parents in some list. -/
def AptosLineage (st : Storage A) : Prop :=
  ∀ a key kitty, st.entry a key = some kitty →
    ¬ (kitty.mId = 1 <<< 32 - 1 ∧ kitty.sId = 1 <<< 32 - 1) →
    ∃ global kitties, st.allKitties global = some kitties ∧
      Suitable (kitties.map Aptos.KittyBreeding.KittyInfo.gender) kitty.mId kitty.sId

/-- A new list is under an address that had none. -/
theorem AptosLineage.initializeGlobal {st st' : Storage A} (hl : AptosLineage st) {g : A}
    (hst' : Aptos.KittyBreeding.initializeGlobal g st = .ok st') : AptosLineage st' := by
  obtain ⟨hnone, -, rfl⟩ := Aptos.KittyBreeding.initializeGlobal_eq_ok.mp hst'
  intro a key kitty hk hbred
  obtain ⟨global, kitties, hkitties, hsuit⟩ := hl a key kitty hk hbred
  refine ⟨global, kitties, ?_, hsuit⟩
  have hne : global ≠ g := by
    rintro rfl
    cases hnone.symm.trans hkitties
  exact (Function.update_of_ne hne _ _).trans hkitties

/-- A list that has grown has the parents where they were. -/
theorem AptosLineage.mint {st st' : Storage A} (hl : AptosLineage st) {owner g : A} {genes : ℕ}
    {gender : Bool} (hst' : Aptos.KittyBreeding.mint owner g genes gender st = .ok st') :
    AptosLineage st' := by
  obtain ⟨kitties, hkitties, -, rfl⟩ := Aptos.KittyBreeding.mint_eq_ok.mp hst'
  intro a key kitty hk hbred
  rw [Storage.entry_put] at hk
  split at hk
  · cases hk
    exact absurd ⟨rfl, rfl⟩ hbred
  · obtain ⟨global, kitties', hkitties', hsuit⟩ := hl a key kitty hk hbred
    by_cases hglobal : global = g
    · subst hglobal
      cases hkitties.symm.trans hkitties'
      refine ⟨global, kitties ++ [⟨gender, owner⟩], ?_, ?_⟩
      · show Function.update st.allKitties global _ global = _
        rw [Function.update_self, hkitties, Option.getD_some]
      · rw [List.map_append]
        exact hsuit.append _
    · exact ⟨global, kitties', (Function.update_of_ne hglobal _ _).trans hkitties', hsuit⟩

/-- A kitty that is bred has the parents that were asked for. -/
theorem AptosLineage.breed {st st' : Storage A} (hl : AptosLineage st) {sender g : A} {m s : ℕ}
    (gender : Bool) (hst' : Aptos.KittyBreeding.breed sender g m s gender st = .ok st')
    (hpair : ∀ kitties, st.allKitties g = some kitties → m < kitties.length → s < kitties.length →
      Suitable (kitties.map Aptos.KittyBreeding.KittyInfo.gender) m s) : AptosLineage st' := by
  obtain ⟨kitties, _, _, _, _, _, hb, rfl⟩ := (Aptos.KittyBreeding.breed_eq_ok gender).mp hst'
  intro a key kitty hk hbred
  have hk : (Storage.put _ _ st).entry a key = some kitty := hk
  rw [Storage.entry_put] at hk
  split at hk
  · cases hk
    exact ⟨g, kitties, hb.kitties_eq, hpair kitties hb.kitties_eq
      (List.getElem?_eq_some_iff.mp hb.matron_eq).1 (List.getElem?_eq_some_iff.mp hb.sire_eq).1⟩
  · exact hl a key kitty hk hbred

/-- **The lineage of an Aptos kitty**, in runs that breed only suitable pairs. -/
theorem aptos_lineage {h : Aptos.KittyBreeding.History A} {c : Config (Storage A) Empty}
    (hr : machine.Run AptosPaired ⟨Aptos.KittyBreeding.empty A, 0⟩ h c) :
    AptosLineage c.state := by
  refine hr.call_invariant (I := fun _ c => AptosLineage c.state) ?_ ?_ ?_
  · intro a key kitty hk
    cases hk
  · intro h c q eff _ ih hg hq
    obtain ⟨st', hst', rfl⟩ := call_eq_ok.mp hq
    cases q with
    | initializeGlobal g => exact ih.initializeGlobal hst'
    | mint owner g genes gender => exact ih.mint hst'
    | breed sender g m s gender => exact ih.breed gender hst' hg
  · intro h c q f _ ih _ _
    exact ih

end Aptos

/-! ### The four contracts -/

/-- **Which parents the contracts agree on.** After the same mints in all four contracts, each
accepts a pair exactly if it is one of a matron and a sire, if and only if the pair is such a pair
or one of the two is not registered. The records of bred kitties name a matron and a sire: in every
state of the Crystality and the Sei contract that their operations lead to, and in every state of
the PREDA and the Aptos contract that is reached by breeding such pairs only. -/
theorem parents_agree_iff (X : Chain A) (global : A) :
    (∀ (gs : List Bool) (m s : ℕ) (a : A) (gender : Bool) p q t u,
      PredaMinted X gs p → CrystalityMinted X gs q → SeiMinted gs t → AptosMinted global gs u →
      ((predaAccepts X p a m s gender ↔ Suitable gs m s) ∧
        (crystalityAccepts X q a m s gender ↔ Suitable gs m s) ∧
        (seiAccepts t a a m s gender ↔ Suitable gs m s) ∧
        (aptosAccepts u a global m s gender ↔ Suitable gs m s) ↔
      (m < gs.length → s < gs.length → Suitable gs m s))) ∧
    (∀ h c, (Preda.KittyBreeding.kitty X).Run PredaPaired ⟨deployed A ℤ X.shardOrder, 0⟩ h c →
      Lineage 0xffffffff (genders c.state.allKitties) c.state.myKitties) ∧
    (∀ h c, (Crystality.KittyBreeding.machine X).Run Anything ⟨deployed A ℕ X.shardOrder, 0⟩ h c →
      (∀ q ∈ calls h, q.isOperation) →
      Lineage (2 ^ 256 - 1) (genders c.state.allKitties) c.state.myKitties) ∧
    (∀ h c, Sei.KittyBreeding.machine.Run Anything ⟨Sei.KittyBreeding.deployed A, 0⟩ h c →
      (∀ q ∈ calls h, q.isOperation) →
      Lineage (2 ^ 256 - 1) (genders c.state.allKitties) c.state.myKitties) ∧
    ∀ h c, Aptos.KittyBreeding.machine.Run AptosPaired ⟨Aptos.KittyBreeding.empty A, 0⟩ h c →
      AptosLineage c.state := by
  refine ⟨?_, fun h c hr => preda_lineage hr, fun h c hr => crystality_lineage hr,
    fun h c hr => sei_lineage hr, fun h c hr => aptos_lineage hr⟩
  intro gs m s a gender p q t u hp hq ht hu
  obtain ⟨kitties, hkitties, hgs⟩ := hu.genders_eq
  have hlen : kitties.length = gs.length := by rw [← hgs, List.length_map]
  have hlenp : p.allKitties.length = gs.length := by rw [← hp.genders_eq, genders, List.length_map]
  rw [predaAccepts_iff, hp.genders_eq, hlenp, crystalityAccepts_iff, hq.genders_eq,
    seiAccepts_iff, ht.genders_eq, aptosAccepts_iff hkitties, hlen]
  constructor
  · rintro ⟨-, -, -, haptos⟩ hm hs
    exact haptos.mp ⟨hm, hs⟩
  · intro hpair
    refine ⟨⟨fun hpass => ?_, fun hsuit => ⟨hsuit.1, (lt_length_of_suitable hsuit).2⟩⟩, Iff.rfl,
      Iff.rfl, fun hlt => hpair hlt.1 hlt.2, lt_length_of_suitable⟩
    exact hpair (List.getElem?_eq_some_iff.mp hpass.1).1 hpass.2

/-- Two kitties in all four contracts, of which the first is a matron. -/
theorem exists_minted_pair (g : Bool) : ∃ p q t u,
    PredaMinted (Preda.oneShard .trap) [true, g] p ∧
    CrystalityMinted (Preda.oneShard .trap) [true, g] q ∧
    SeiMinted (A := Fin 2) [true, g] t ∧ AptosMinted (A := Fin 2) 0 [true, g] u := by
  have hpreda : ∀ g, ∃ r ∈ (Preda.KittyBreeding.kitty (Preda.oneShard .trap)).exec Anything
      ⟨deployed (Fin 2) ℤ 0, 0⟩ [.call (.mint 4 true 0), .call (.mint 9 g 1)],
      (∀ q ∈ calls r.1, q.isMint) ∧
      (Preda.KittyBreeding.mints r.1).map Preda.KittyBreeding.Minted.gender = [true, g] := by
    decide
  have hcrystality : ∀ g, ∃ r ∈ (Crystality.KittyBreeding.machine (Preda.oneShard .trap)).exec
      Anything ⟨deployed (Fin 2) ℕ 0, 0⟩ [.call (.mint 0 4 true), .call (.mint 1 9 g),
        .deliver (.lambda0 0 4 true), .deliver (.lambda0 1 9 g)],
      (∀ q ∈ calls r.1, q.isMint) ∧
      (Crystality.KittyBreeding.registered r.1).map Preda.KittyBreeding.Minted.gender =
        [true, g] := by
    decide
  have hsei : ∀ g, ∃ r ∈ Sei.KittyBreeding.machine.exec Anything
      ⟨Sei.KittyBreeding.deployed (Fin 2), 0⟩ [.call (.mint 0 4 true), .call (.mint 1 9 g)],
      (∀ q ∈ calls r.1, q.isMint) ∧
      (Sei.KittyBreeding.mints r.1).map Preda.KittyBreeding.Minted.gender = [true, g] := by
    decide
  have haptos : ∀ g, ∃ r ∈ Aptos.KittyBreeding.machine.exec Anything
      ⟨Aptos.KittyBreeding.empty (Fin 2), 0⟩ [.call (.initializeGlobal 0),
        .call (.mint 0 0 4 true), .call (.mint 1 0 9 g)],
      (∀ q ∈ calls r.1, isAptosMint q) ∧ (r.2.state.allKitties 0).isSome ∧
      mintedInto 0 r.1 = [true, g] := by
    decide
  obtain ⟨⟨h₁, c₁⟩, hx₁, hm₁, hg₁⟩ := hpreda g
  obtain ⟨⟨h₂, c₂⟩, hx₂, hm₂, hg₂⟩ := hcrystality g
  obtain ⟨⟨h₃, c₃⟩, hx₃, hm₃, hg₃⟩ := hsei g
  obtain ⟨⟨h₄, c₄⟩, hx₄, hm₄, hsome₄, hg₄⟩ := haptos g
  exact ⟨c₁.state, c₂.state, c₃.state, c₄.state,
    ⟨h₁, c₁, Machine.exec_run hx₁, fun q hq => .inl (hm₁ q hq), hg₁, rfl⟩,
    ⟨h₂, c₂, Machine.exec_run hx₂, hm₂, hg₂, rfl⟩,
    ⟨h₃, c₃, Machine.exec_run hx₃, hm₃, hg₃, rfl⟩,
    ⟨h₄, c₄, Machine.exec_run hx₄, hm₄, hsome₄, hg₄, rfl⟩⟩

/-- A matron and a sire are accepted by all four contracts, and on PREDA their child names them. -/
theorem parents_agree_pair :
    (∃ p q t u, PredaMinted (Preda.oneShard .trap) [true, false] p ∧
      CrystalityMinted (Preda.oneShard .trap) [true, false] q ∧
      SeiMinted (A := Fin 2) [true, false] t ∧ AptosMinted (A := Fin 2) 0 [true, false] u ∧
      predaAccepts (Preda.oneShard .trap) p 0 0 1 true ∧
      crystalityAccepts (Preda.oneShard .trap) q 0 0 1 true ∧ seiAccepts t 0 0 0 1 true ∧
      aptosAccepts u 0 0 0 1 true) ∧
    ∃ h c, (Preda.KittyBreeding.kitty (Preda.oneShard .trap)).Run PredaPaired
        ⟨deployed (Fin 2) ℤ 0, 0⟩ h c ∧
      c.state.myKitties 0 0x80000000 = some ⟨0x80000000, 6, 0, 1, 0⟩ ∧
      Suitable (genders c.state.allKitties) 0 1 := by
  obtain ⟨hagree, hlineage, -⟩ := parents_agree_iff (Preda.oneShard .trap) (0 : Fin 2)
  constructor
  · obtain ⟨p, q, t, u, hp, hq, ht, hu⟩ := exists_minted_pair false
    have hsuit : Suitable [true, false] 0 1 := ⟨rfl, rfl⟩
    obtain ⟨h₁, h₂, h₃, h₄⟩ := (hagree _ 0 1 0 true p q t u hp hq ht hu).mpr fun _ _ => hsuit
    exact ⟨p, q, t, u, hp, hq, ht, hu, h₁.mpr hsuit, h₂.mpr hsuit, h₃.mpr hsuit, h₄.mpr hsuit⟩
  · obtain ⟨⟨h, c⟩, hx, hentry⟩ :
        ∃ r ∈ (Preda.KittyBreeding.kitty (Preda.oneShard .trap)).exec PredaPaired
          ⟨deployed (Fin 2) ℤ 0, 0⟩ [.call (.mint 4 true 0), .call (.mint 9 false 1),
            .deliver (.storeMinted 0 4 true 0), .deliver (.storeMinted 1 9 false 1),
            .call (.breed 0 0 1 true), .deliver (.breedMatron 0 0 1 0 true),
            .deliver (.breedSire 1 0 4 1 0 true), .deliver (.storeNewBorn 0 1 0 true 6 0)],
          r.2.state.myKitties 0 0x80000000 = some ⟨0x80000000, 6, 0, 1, 0⟩ := by decide
    have hr := Machine.exec_run hx
    exact ⟨h, c, hr, hentry, hlineage h c hr 0 _ _ hentry (by decide)⟩

/-- A matron and another matron. The PREDA and the Aptos contract accept them, the other two do not;
and on PREDA there is a child then, whose sire is a matron. -/
theorem two_matrons_accepted :
    (∃ p q t u, PredaMinted (Preda.oneShard .trap) [true, true] p ∧
      CrystalityMinted (Preda.oneShard .trap) [true, true] q ∧
      SeiMinted (A := Fin 2) [true, true] t ∧ AptosMinted (A := Fin 2) 0 [true, true] u ∧
      ¬ Suitable [true, true] 0 1 ∧ predaAccepts (Preda.oneShard .trap) p 0 0 1 true ∧
      ¬ crystalityAccepts (Preda.oneShard .trap) q 0 0 1 true ∧ ¬ seiAccepts t 0 0 0 1 true ∧
      aptosAccepts u 0 0 0 1 true) ∧
    ∃ h c, (Preda.KittyBreeding.kitty (Preda.oneShard .trap)).Run Anything
        ⟨deployed (Fin 2) ℤ 0, 0⟩ h c ∧
      c.state.myKitties 0 0x80000000 = some ⟨0x80000000, 6, 0, 1, 0⟩ ∧
      genders c.state.allKitties = [true, true] := by
  constructor
  · obtain ⟨p, q, t, u, hp, hq, ht, hu⟩ := exists_minted_pair true
    obtain ⟨kitties, hkitties, hgs⟩ := hu.genders_eq
    have hlen : kitties.length = 2 := by rw [← List.length_map, hgs]; rfl
    have hlenp : p.allKitties.length = 2 := by
      rw [← List.length_map (f := KittyInfo.gender), ← genders, hp.genders_eq]
      rfl
    have hnot : ¬ Suitable [true, true] 0 1 := by decide
    refine ⟨p, q, t, u, hp, hq, ht, hu, hnot, ?_, ?_, ?_, ?_⟩
    · rw [predaAccepts_iff, hp.genders_eq, hlenp]
      exact ⟨rfl, by decide⟩
    · rw [crystalityAccepts_iff, hq.genders_eq]
      exact hnot
    · rw [seiAccepts_iff, ht.genders_eq]
      exact hnot
    · rw [aptosAccepts_iff hkitties, hlen]
      exact ⟨by decide, by decide⟩
  · obtain ⟨⟨h, c⟩, hx, hentry, hgs⟩ :
        ∃ r ∈ (Preda.KittyBreeding.kitty (Preda.oneShard .trap)).exec Anything
          ⟨deployed (Fin 2) ℤ 0, 0⟩ [.call (.mint 4 true 0), .call (.mint 9 true 1),
            .deliver (.storeMinted 0 4 true 0), .deliver (.storeMinted 1 9 true 1),
            .call (.breed 0 0 1 true), .deliver (.breedMatron 0 0 1 0 true),
            .deliver (.breedSire 1 0 4 1 0 true), .deliver (.storeNewBorn 0 1 0 true 6 0)],
          r.2.state.myKitties 0 0x80000000 = some ⟨0x80000000, 6, 0, 1, 0⟩ ∧
          genders r.2.state.allKitties = [true, true] := by decide
    exact ⟨h, c, Machine.exec_run hx, hentry, hgs⟩

end KittyParents

end RelayContracts
