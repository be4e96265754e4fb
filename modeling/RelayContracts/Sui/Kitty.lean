import RelayContracts.NewtonSqrt
import RelayContracts.Synchronous

/-!
# The Sui kitty module

The Move module `KittyBreeding`. Kitties and genes are objects that belong to addresses, and there
is no list of them. A breeding takes two transactions: the owner of one kitty has it provide a gene,
which is an object of its own and can be sent to anybody, and whoever owns the gene and another
kitty breeds with them. The gene is consumed by that.

A gene has the genes of the kitty it comes from, but does not say which kitty that was. So `breed`
has only the id of the gene for a sire. `lineage_iff` says that the rest is as it should be: the
matron is a kitty, a gene is consumed at most once; but as soon as there is one bred kitty, its sire
is none.

`object::new` is not part of the module. Its results are arguments of a transaction here, and a run
is one of fresh ids if no id is `0` or occurs twice.

## Main definitions

* `Call`, `machine` — the module
* `FreshIds` — the guard for `object::new`
* `Descends` — what the record of a kitty should say about its parents
-/

namespace RelayContracts

namespace Sui

namespace KittyBreeding

open RelayMachine

/-- Why a transaction failed. -/
inductive Abort where
  /-- There is no such object, or not of the type that the function takes. -/
  | missingObject
  /-- The object belongs to another address. -/
  | notOwner
  /-- A `u128` overflowed or was divided by zero. -/
  | arithmeticError
  deriving DecidableEq, Repr

/-- `struct Gene`. -/
structure Gene (I : Type) where
  /-- `id: UID`. -/
  id : I
  /-- `gene_id: u128`. -/
  geneId : ℕ
  deriving DecidableEq, Repr

/-- `struct Kitty`. Its gene is part of it, and no object by itself. -/
structure Kitty (I : Type) where
  /-- `id: UID`. -/
  id : I
  /-- `gene: Gene`. -/
  gene : Gene I
  /-- `matronId: ID`. -/
  matronId : I
  /-- `sireId: ID`. -/
  sireId : I
  deriving DecidableEq, Repr

/-- The objects of the module, with the addresses they belong to. -/
structure Store (A I : Type) where
  /-- The kitties. -/
  kitties : I → Option (A × Kitty I)
  /-- The genes. -/
  genes : I → Option (A × Gene I)

/-- The functions of the module, with the sender and what `object::new` returns in it. -/
inductive Call (A I : Type) where
  /-- `mint(gene_id, ctx)`. -/
  | mint (sender : A) (geneId : ℕ) (newGene newKitty : I)
  /-- `provide_gene(kitty, to, ctx)`. -/
  | provideGene (sender : A) (kitty : I) (recipient : A) (newGene : I)
  /-- `breed(gene, kitty, ctx)`. -/
  | breed (sender : A) (gene kitty newGene newKitty : I)
  deriving DecidableEq, Repr

variable {A I : Type}

/-- No object exists. -/
def genesis (A I : Type) : Store A I := ⟨fun _ => none, fun _ => none⟩

/-! ### The functions -/

/-- `sqrt(x)`. -/
def sqrt (x : ℕ) : Except Abort ℕ := faultAs .arithmeticError (sqrtU .trap 128 x)

/-- The expression `sqrt(g0) * sqrt(g1)`. -/
def mixture (g0 g1 : ℕ) : Except Abort ℕ := do
  let a ← sqrt g0
  let b ← sqrt g1
  faultAs .arithmeticError (mulU .trap 128 a b)

/-- `generate_gene(g0, g1)`, which computes its result five times. -/
def generateGene (g0 g1 : ℕ) : Except Abort ℕ := do
  let _ ← mixture g0 g1
  let _ ← mixture g0 g1
  let _ ← mixture g0 g1
  let _ ← mixture g0 g1
  mixture g0 g1

variable [DecidableEq A]

/-- An object that the sender passes to a function. -/
def input {α : Type} (sender : A) (objects : I → Option (A × α)) (i : I) : Except Abort α :=
  match objects i with
  | none => .error .missingObject
  | some (owner, object) => if owner = sender then .ok object else .error .notOwner

variable [DecidableEq I] [Zero I]

/-- `mint(gene_id, ctx)`. -/
def mint (sender : A) (geneId : ℕ) (newGene newKitty : I) (st : Store A I) :
    Except Abort (Store A I) :=
  let kitty : Kitty I := ⟨newKitty, ⟨newGene, geneId⟩, 0, 0⟩
  .ok { st with kitties := Function.update st.kitties newKitty (some (sender, kitty)) }

/-- `provide_gene(kitty, to, ctx)`. -/
def provideGene (sender : A) (kitty : I) (recipient : A) (newGene : I) (st : Store A I) :
    Except Abort (Store A I) := do
  let k ← input sender st.kitties kitty
  let gene : Gene I := ⟨newGene, k.gene.geneId⟩
  .ok { st with genes := Function.update st.genes newGene (some (recipient, gene)) }

/-- `breed(gene, kitty, ctx)`. -/
def breed (sender : A) (gene kitty newGene newKitty : I) (st : Store A I) :
    Except Abort (Store A I) := do
  let g ← input sender st.genes gene
  let k ← input sender st.kitties kitty
  let newGeneId ← generateGene k.gene.geneId g.geneId
  -- The sire is the gene.
  let new : Kitty I := ⟨newKitty, ⟨newGene, newGeneId⟩, k.id, g.id⟩
  .ok { kitties := Function.update st.kitties newKitty (some (sender, new))
        genes := Function.update st.genes gene none }

/-- Execute a transaction. -/
def execute : Call A I → Store A I → Except Abort (Store A I)
  | .mint sender geneId newGene newKitty => mint sender geneId newGene newKitty
  | .provideGene sender kitty recipient newGene => provideGene sender kitty recipient newGene
  | .breed sender gene kitty newGene newKitty => breed sender gene kitty newGene newKitty

/-- The module as a machine without relays. -/
def machine : Machine (Store A I) (Call A I) Empty Unit Abort where
  call q st := do
    let st ← execute q st
    .ok ⟨st, (), []⟩
  relay m := m.elim

/-- The transactions of a run, latest first. -/
abbrev History (A I : Type) := List (Event (Call A I) Empty Unit Abort)

/-! ### What has happened -/

section Histories

omit [DecidableEq A] [DecidableEq I] [Zero I]

/-- What `object::new` returns in a transaction. -/
def Call.ids : Call A I → List I
  | .mint _ _ newGene newKitty => [newGene, newKitty]
  | .provideGene _ _ _ newGene => [newGene]
  | .breed _ _ _ newGene newKitty => [newGene, newKitty]

/-- The ids that were returned so far. -/
def issued (h : History A I) : List I := (calls h).flatMap Call.ids

/-- The gene that a transaction has consumed. -/
def consumed? : Event (Call A I) Empty Unit Abort → Option I
  | .call (.breed _ gene _ _ _) (.ok _) => some gene
  | _ => none

/-- The genes that were consumed, latest first. -/
def consumed (h : History A I) : List I := h.filterMap consumed?

/-- A kitty was minted. -/
def MintedAs (h : History A I) (k : I) : Prop :=
  ∃ sender geneId newGene, Event.call (.mint sender geneId newGene k) (.ok ()) ∈ h

/-- A kitty provided a gene. -/
def Provided (h : History A I) (d g : I) : Prop :=
  ∃ sender recipient, Event.call (.provideGene sender d recipient g) (.ok ()) ∈ h

/-- A gene was consumed by breeding with a kitty, and a kitty came of it. -/
def BredFrom (h : History A I) (g m k : I) : Prop :=
  ∃ sender newGene, Event.call (.breed sender g m newGene k) (.ok ()) ∈ h

end Histories

/-- `object::new` returns ids that are not zero and were not returned before. -/
def FreshIds (h : History A I) (_ : Config (Store A I) Empty) :
    Event (Call A I) Empty Unit Abort → Prop
  | .call q _ => q.ids.Nodup ∧ (0 : I) ∉ q.ids ∧ ∀ i ∈ q.ids, i ∉ issued h
  | .deliver _ _ => True

instance (h : History A I) (c : Config (Store A I) Empty)
    (e : Event (Call A I) Empty Unit Abort) : Decidable (FreshIds h c e) :=
  match e with
  | .call q _ =>
    inferInstanceAs (Decidable (q.ids.Nodup ∧ (0 : I) ∉ q.ids ∧ ∀ i ∈ q.ids, i ∉ issued h))
  | .deliver _ _ => isTrue trivial

/-- What `breed` asks for: the sender has the gene and the kitty, and they have a mixture. -/
def Breedable (st : Store A I) (sender : A) (gene kitty : I) : Prop :=
  ∃ g k, st.genes gene = some (sender, g) ∧ st.kitties kitty = some (sender, k) ∧
    k.gene.geneId < 2 ^ 128 - 1 ∧ g.geneId < 2 ^ 128 - 1

/-- Nobody breeds who has what it takes. -/
def Childless (_ : History A I) (c : Config (Store A I) Empty) :
    Event (Call A I) Empty Unit Abort → Prop
  | .call (.breed sender gene kitty _ _) _ => ¬ Breedable c.state sender gene kitty
  | _ => True

/-- The record of a kitty says that it was minted, or names the kitty that it was bred with and the
kitty that provided the gene. -/
def Descends (h : History A I) (st : Store A I) (k : Kitty I) : Prop :=
  (MintedAs h k.id ∧ k.matronId = 0 ∧ k.sireId = 0) ∨
    ∃ g, BredFrom h g k.matronId k.id ∧ Provided h k.sireId g ∧
      (st.kitties k.matronId).isSome ∧ (st.kitties k.sireId).isSome

/-! ### What a transaction that succeeds does -/

omit [DecidableEq I] [Zero I] in
theorem input_eq_ok {α : Type} {sender : A} {objects : I → Option (A × α)} {i : I} {x : α} :
    input sender objects i = .ok x ↔ objects i = some (sender, x) := by
  rw [input]
  split
  · simp [*]
  · rename_i owner object hi
    rw [hi]
    by_cases howner : owner = sender
    · simp [howner]
    · simp [howner]

theorem generateGene_eq_ok {g0 g1 g : ℕ} :
    generateGene g0 g1 = .ok g ↔
      g0 < 2 ^ 128 - 1 ∧ g1 < 2 ^ 128 - 1 ∧ g = Nat.sqrt g0 * Nat.sqrt g1 := by
  have hmix : mixture g0 g1 = faultAs .arithmeticError (mulSqrtU .trap 128 g0 g1) := by
    simp only [mixture, sqrt, mulSqrtU, faultAs_bind]
  have hgen : generateGene g0 g1 = faultAs .arithmeticError (mulSqrtU .trap 128 g0 g1) := by
    rw [generateGene, hmix]
    cases faultAs Abort.arithmeticError (mulSqrtU .trap 128 g0 g1) with
    | error f => rfl
    | ok g => rfl
  rw [hgen, faultAs_eq_ok, mulSqrtU_trap_eq_ok]
  constructor
  · rintro ⟨h0, h1, rfl⟩
    exact ⟨by omega, by omega, rfl⟩
  · rintro ⟨h0, h1, rfl⟩
    exact ⟨by omega, by omega, rfl⟩

section Specs

variable {st st' : Store A I} {sender recipient : A} {gene kitty newGene newKitty : I}

theorem call_eq_ok {q : Call A I} {eff : Effect (Store A I) Empty Unit} :
    machine.call q st = .ok eff ↔ ∃ st', execute q st = .ok st' ∧ eff = ⟨st', (), []⟩ :=
  bind_ok_eq_ok

omit [Zero I] in
/-- **When `breed` succeeds**, and what it does then. -/
theorem breed_eq_ok :
    breed sender gene kitty newGene newKitty st = .ok st' ↔
      ∃ g k, st.genes gene = some (sender, g) ∧ st.kitties kitty = some (sender, k) ∧
        k.gene.geneId < 2 ^ 128 - 1 ∧ g.geneId < 2 ^ 128 - 1 ∧
        st' = ⟨Function.update st.kitties newKitty (some (sender, ⟨newKitty,
          ⟨newGene, Nat.sqrt k.gene.geneId * Nat.sqrt g.geneId⟩, k.id, g.id⟩)),
          Function.update st.genes gene none⟩ := by
  constructor
  · intro h
    obtain ⟨g, hg, h⟩ := exists_of_bind_eq_ok h
    obtain ⟨k, hk, h⟩ := exists_of_bind_eq_ok h
    obtain ⟨n, hn, h⟩ := exists_of_bind_eq_ok h
    obtain ⟨hkfit, hgfit, rfl⟩ := generateGene_eq_ok.mp hn
    cases h
    exact ⟨g, k, input_eq_ok.mp hg, input_eq_ok.mp hk, hkfit, hgfit, rfl⟩
  · rintro ⟨g, k, hg, hk, hkfit, hgfit, rfl⟩
    rw [breed, input_eq_ok.mpr hg, ok_bind, input_eq_ok.mpr hk, ok_bind,
      generateGene_eq_ok.mpr ⟨hkfit, hgfit, rfl⟩, ok_bind]

omit [Zero I] in
theorem provideGene_eq_ok :
    provideGene sender kitty recipient newGene st = .ok st' ↔
      ∃ k, st.kitties kitty = some (sender, k) ∧
        st' = { st with
          genes := Function.update st.genes newGene
            (some (recipient, ⟨newGene, k.gene.geneId⟩)) } := by
  constructor
  · intro h
    obtain ⟨k, hk, h⟩ := exists_of_bind_eq_ok h
    cases h
    exact ⟨k, input_eq_ok.mp hk, rfl⟩
  · rintro ⟨k, hk, rfl⟩
    rw [provideGene, input_eq_ok.mpr hk, ok_bind]

end Specs

/-! ### Runs -/

section Histories

omit [DecidableEq A] [DecidableEq I] [Zero I]

variable {h : History A I} {e : Event (Call A I) Empty Unit Abort} {d g m k : I}

theorem issued_cons (q : Call A I) (v : Except Abort Unit) :
    issued (.call q v :: h) = q.ids ++ issued h := rfl

theorem MintedAs.cons (hm : MintedAs h k) : MintedAs (e :: h) k := by
  obtain ⟨sender, geneId, newGene, hmem⟩ := hm
  exact ⟨sender, geneId, newGene, List.mem_cons_of_mem e hmem⟩

theorem Provided.cons (hp : Provided h d g) : Provided (e :: h) d g := by
  obtain ⟨sender, recipient, hmem⟩ := hp
  exact ⟨sender, recipient, List.mem_cons_of_mem e hmem⟩

theorem BredFrom.cons (hb : BredFrom h g m k) : BredFrom (e :: h) g m k := by
  obtain ⟨sender, newGene, hmem⟩ := hb
  exact ⟨sender, newGene, List.mem_cons_of_mem e hmem⟩

theorem mem_issued {q : Call A I} {v : Except Abort Unit} {i : I} (hmem : .call q v ∈ h)
    (hi : i ∈ q.ids) : i ∈ issued h :=
  List.mem_flatMap.mpr ⟨q, mem_calls.mpr ⟨v, hmem⟩, hi⟩

theorem Provided.mem_issued (hp : Provided h d g) : g ∈ issued h := by
  obtain ⟨sender, recipient, hmem⟩ := hp
  exact KittyBreeding.mem_issued hmem (List.mem_singleton_self g)

theorem mem_consumed : g ∈ consumed h ↔ ∃ m k, BredFrom h g m k := by
  rw [consumed, List.mem_filterMap]
  constructor
  · rintro ⟨e, he, hg⟩
    rw [consumed?.eq_def] at hg
    split at hg
    · cases hg
      exact ⟨_, _, _, _, he⟩
    · cases hg
  · rintro ⟨m, k, sender, newGene, hmem⟩
    exact ⟨_, hmem, rfl⟩

end Histories

section Kept

omit [DecidableEq A]

/-- What is known about the kitties. -/
structure KittiesKept (h : History A I) (kitties : I → Option (A × Kitty I)) : Prop where
  /-- A kitty is under its id. -/
  id_eq : ∀ {i o k}, kitties i = some (o, k) → k.id = i
  /-- The id of a kitty was returned by `object::new`. -/
  issued : ∀ {i x}, kitties i = some x → i ∈ issued h
  /-- A kitty was minted, or bred with its matron. -/
  matron : ∀ {i o k}, kitties i = some (o, k) →
    (MintedAs h i ∧ k.matronId = 0 ∧ k.sireId = 0) ∨
      ∃ g, BredFrom h g k.matronId i ∧ (kitties k.matronId).isSome
  /-- The record of a bred kitty names the matron and the gene. -/
  bred : ∀ {g m i}, BredFrom h g m i →
    ∃ o k, kitties i = some (o, k) ∧ k.matronId = m ∧ k.sireId = g ∧ m ∈ KittyBreeding.issued h

/-- What is known about the genes. -/
structure GenesKept (h : History A I) (genes : I → Option (A × Gene I)) : Prop where
  /-- A gene is under its id. -/
  id_eq : ∀ {i o g}, genes i = some (o, g) → g.id = i
  /-- A gene was provided, and not consumed. -/
  provided : ∀ {i x}, genes i = some x → (∃ d, Provided h d i) ∧ i ∉ consumed h
  /-- A gene that was consumed had been provided. -/
  issued : ∀ {g}, g ∈ consumed h → g ∈ issued h
  /-- A gene is consumed once. -/
  nodup : (consumed h).Nodup

/-- What transactions with fresh ids keep. -/
structure Kept (h : History A I) (st : Store A I) : Prop where
  /-- No id is zero. -/
  zero : (0 : I) ∉ issued h
  /-- A gene is not the kitty it comes from. -/
  provided_ne : ∀ {d g}, Provided h d g → d ≠ g
  /-- The kitties. -/
  kitties : KittiesKept h st.kitties
  /-- The genes. -/
  genes : GenesKept h st.genes

variable {h : History A I} {st : Store A I} {q : Call A I} {v : Except Abort Unit}
  {kitties : I → Option (A × Kitty I)} {genes : I → Option (A × Gene I)}

section Steps

omit [DecidableEq I]

theorem zero_notMem_issued (hzero : (0 : I) ∉ q.ids) (h0 : (0 : I) ∉ issued h) :
    (0 : I) ∉ issued (.call q v :: h) := by
  rw [issued_cons, List.mem_append]
  exact fun hmem => hmem.elim hzero h0

/-- A transaction that leaves the kitties alone. -/
theorem KittiesKept.cons (hk : KittiesKept h kitties)
    (hbred : ∀ {g m i}, BredFrom (.call q v :: h) g m i → BredFrom h g m i) :
    KittiesKept (.call q v :: h) kitties where
  id_eq := hk.id_eq
  issued hi := List.mem_append_right _ (hk.issued hi)
  matron hi := by
    rcases hk.matron hi with ⟨hm, hids⟩ | ⟨g, hb, hsome⟩
    · exact .inl ⟨hm.cons, hids⟩
    · exact .inr ⟨g, hb.cons, hsome⟩
  bred hb := by
    obtain ⟨o, k, hi, hmatron, hsire, hm⟩ := hk.bred (hbred hb)
    exact ⟨o, k, hi, hmatron, hsire, List.mem_append_right _ hm⟩

omit [Zero I] in
/-- A transaction that leaves the genes alone. -/
theorem GenesKept.cons (hk : GenesKept h genes) (hcon : consumed (.call q v :: h) = consumed h) :
    GenesKept (.call q v :: h) genes where
  id_eq := hk.id_eq
  provided hi := by
    obtain ⟨⟨d, hd⟩, hnot⟩ := hk.provided hi
    exact ⟨⟨d, hd.cons⟩, hcon ▸ hnot⟩
  issued hg := List.mem_append_right _ (hk.issued (hcon ▸ hg))
  nodup := hcon ▸ hk.nodup

end Steps

omit [Zero I] in
theorem of_update_eq_some {α : Type} {f : I → Option α} {n i : I} {x y : α}
    (h : Function.update f n (some x) i = some y) : (i = n ∧ y = x) ∨ f i = some y := by
  by_cases hi : i = n
  · rw [hi, Function.update_self] at h
    cases h
    exact .inl ⟨hi, rfl⟩
  · rw [Function.update_of_ne hi] at h
    exact .inr h

omit [Zero I] in
theorem update_isSome {α : Type} {f : I → Option α} {n i : I} {x : α} (h : (f i).isSome) :
    (Function.update f n (some x) i).isSome := by
  rw [Function.update_apply]
  split
  · rfl
  · exact h

/-- A transaction that adds a kitty under a new id. -/
theorem KittiesKept.add (hk : KittiesKept h kitties) {o : A} {k : Kitty I} (hn : k.id ∈ q.ids)
    (hnew : k.id ∉ KittyBreeding.issued h)
    (hmatron : (MintedAs (.call q v :: h) k.id ∧ k.matronId = 0 ∧ k.sireId = 0) ∨
      ∃ g, BredFrom (.call q v :: h) g k.matronId k.id ∧ (kitties k.matronId).isSome)
    (hbred : ∀ {g m i}, BredFrom (.call q v :: h) g m i → BredFrom h g m i ∨
      i = k.id ∧ k.matronId = m ∧ k.sireId = g ∧ m ∈ KittyBreeding.issued h) :
    KittiesKept (.call q v :: h) (Function.update kitties k.id (some (o, k))) where
  id_eq hi := by
    rcases of_update_eq_some hi with ⟨rfl, heq⟩ | hi
    · cases heq
      rfl
    · exact hk.id_eq hi
  issued hi := by
    rcases of_update_eq_some hi with ⟨rfl, -⟩ | hi
    · exact List.mem_append_left _ hn
    · exact List.mem_append_right _ (hk.issued hi)
  matron hi := by
    rcases of_update_eq_some hi with ⟨rfl, heq⟩ | hi
    · cases heq
      exact hmatron.imp_right fun hm => hm.imp fun _ hm => ⟨hm.1, update_isSome hm.2⟩
    · rcases hk.matron hi with ⟨hm, hids⟩ | ⟨g, hb, hsome⟩
      · exact .inl ⟨hm.cons, hids⟩
      · exact .inr ⟨g, hb.cons, update_isSome hsome⟩
  bred hb := by
    rcases hbred hb with hb | ⟨rfl, rfl, rfl, hm⟩
    · obtain ⟨o, k', hi, hmatron, hsire, hm⟩ := hk.bred hb
      refine ⟨o, k', ?_, hmatron, hsire, List.mem_append_right _ hm⟩
      rw [← hi]
      refine Function.update_of_ne ?_ _ _
      rintro rfl
      exact hnew (hk.issued hi)
    · exact ⟨o, k, Function.update_self _ _ _, rfl, rfl, List.mem_append_right _ hm⟩

omit [DecidableEq I] in
/-- A transaction that failed. -/
theorem Kept.failed (hk : Kept h st) {f : Abort} (hzero : (0 : I) ∉ q.ids) :
    Kept (.call q (.error f) :: h) st where
  zero := zero_notMem_issued hzero hk.zero
  provided_ne := by
    rintro d g ⟨sender, recipient, hmem⟩
    exact hk.provided_ne ⟨sender, recipient, by simpa using hmem⟩
  kitties := hk.kitties.cons fun hb => by
    obtain ⟨sender, newGene, hmem⟩ := hb
    exact ⟨sender, newGene, by simpa using hmem⟩
  genes := hk.genes.cons (by cases q <;> rfl)

/-- A mint. -/
theorem Kept.mint (hk : Kept h st) {sender : A} {geneId : ℕ} {newGene newKitty : I}
    (hzero : (0 : I) ∉ [newGene, newKitty]) (hnew : newKitty ∉ issued h) :
    Kept (.call (.mint sender geneId newGene newKitty) (.ok ()) :: h)
      { st with
        kitties := Function.update st.kitties newKitty
          (some (sender, ⟨newKitty, ⟨newGene, geneId⟩, 0, 0⟩)) } where
  zero := zero_notMem_issued hzero hk.zero
  provided_ne := by
    rintro d g ⟨sender, recipient, hmem⟩
    exact hk.provided_ne ⟨sender, recipient, by simpa using hmem⟩
  kitties := by
    refine hk.kitties.add (k := ⟨newKitty, ⟨newGene, geneId⟩, 0, 0⟩)
      (List.mem_cons_of_mem _ (List.mem_singleton_self _)) hnew
      (.inl ⟨⟨sender, geneId, newGene, List.mem_cons_self⟩, rfl, rfl⟩) ?_
    rintro g m i ⟨sender', newGene', hmem⟩
    exact .inl ⟨sender', newGene', by simpa using hmem⟩
  genes := hk.genes.cons rfl

/-- A gene that is provided. -/
theorem Kept.provideGene (hk : Kept h st) {sender recipient : A} {kitty newGene : I}
    {x : A × Kitty I} (hkitty : st.kitties kitty = some x) {geneId : ℕ}
    (hzero : (0 : I) ∉ [newGene]) (hnew : newGene ∉ issued h) :
    Kept (.call (.provideGene sender kitty recipient newGene) (.ok ()) :: h)
      { st with
        genes := Function.update st.genes newGene (some (recipient, ⟨newGene, geneId⟩)) } where
  zero := zero_notMem_issued hzero hk.zero
  provided_ne := by
    rintro d g ⟨sender', recipient', hmem⟩
    rcases List.mem_cons.mp hmem with heq | hmem
    · cases heq
      rintro rfl
      exact hnew (hk.kitties.issued hkitty)
    · exact hk.provided_ne ⟨sender', recipient', hmem⟩
  kitties := hk.kitties.cons fun hb => by
    obtain ⟨sender', newGene', hmem⟩ := hb
    exact ⟨sender', newGene', by simpa using hmem⟩
  genes :=
    { id_eq := fun hi => by
        rcases of_update_eq_some hi with ⟨rfl, heq⟩ | hi
        · cases heq
          rfl
        · exact hk.genes.id_eq hi
      provided := fun hi => by
        rcases of_update_eq_some hi with ⟨rfl, -⟩ | hi
        · exact ⟨⟨kitty, sender, recipient, List.mem_cons_self⟩,
            fun hcon => hnew (hk.genes.issued hcon)⟩
        · obtain ⟨⟨d, hd⟩, hnot⟩ := hk.genes.provided hi
          exact ⟨⟨d, hd.cons⟩, hnot⟩
      issued := fun hg => List.mem_append_right _ (hk.genes.issued hg)
      nodup := hk.genes.nodup }

/-- A breeding. -/
theorem Kept.breed (hk : Kept h st) {sender : A} {gene kitty newGene newKitty : I} {g : Gene I}
    {k : Kitty I} (hgene : st.genes gene = some (sender, g))
    (hkitty : st.kitties kitty = some (sender, k)) {geneId : ℕ}
    (hzero : (0 : I) ∉ [newGene, newKitty]) (hnew : newKitty ∉ issued h) :
    Kept (.call (.breed sender gene kitty newGene newKitty) (.ok ()) :: h)
      ⟨Function.update st.kitties newKitty
        (some (sender, ⟨newKitty, ⟨newGene, geneId⟩, k.id, g.id⟩)),
        Function.update st.genes gene none⟩ where
  zero := zero_notMem_issued hzero hk.zero
  provided_ne := by
    rintro d g ⟨sender', recipient, hmem⟩
    exact hk.provided_ne ⟨sender', recipient, by simpa using hmem⟩
  kitties := by
    rw [hk.kitties.id_eq hkitty, hk.genes.id_eq hgene]
    refine hk.kitties.add (k := ⟨newKitty, ⟨newGene, geneId⟩, kitty, gene⟩)
      (List.mem_cons_of_mem _ (List.mem_singleton_self _)) hnew
      (.inr ⟨gene, ⟨sender, newGene, List.mem_cons_self⟩, by dsimp only; rw [hkitty]; rfl⟩) ?_
    rintro g' m i ⟨sender', newGene', hmem⟩
    rcases List.mem_cons.mp hmem with heq | hmem
    · cases heq
      exact .inr ⟨rfl, rfl, rfl, hk.kitties.issued hkitty⟩
    · exact .inl ⟨sender', newGene', hmem⟩
  genes :=
    { id_eq := fun {i o g'} hi => by
        dsimp only at hi
        rw [Function.update_apply] at hi
        split at hi
        · cases hi
        · exact hk.genes.id_eq hi
      provided := fun {i x} hi => by
        dsimp only at hi
        rw [Function.update_apply] at hi
        split at hi
        · cases hi
        · rename_i hne
          obtain ⟨⟨d, hd⟩, hnot⟩ := hk.genes.provided hi
          exact ⟨⟨d, hd.cons⟩, fun hcon => (List.mem_cons.mp hcon).elim hne hnot⟩
      issued := fun {g'} hg' => by
        refine List.mem_append_right _ ?_
        rcases List.mem_cons.mp hg' with rfl | hg'
        · obtain ⟨⟨d, hd⟩, -⟩ := hk.genes.provided hgene
          exact hd.mem_issued
        · exact hk.genes.issued hg'
      nodup := List.nodup_cons.mpr ⟨(hk.genes.provided hgene).2, hk.genes.nodup⟩ }

end Kept

/-- The run lemma. -/
theorem kept_of_run {h : History A I} {c : Config (Store A I) Empty}
    (hr : machine.Run FreshIds ⟨genesis A I, 0⟩ h c) : Kept h c.state := by
  refine hr.call_invariant (I := fun h c => Kept h c.state) ?_ ?_ ?_
  · refine ⟨List.not_mem_nil, ?_, ⟨fun hi => ?_, fun hi => ?_, fun hi => ?_, ?_⟩,
      ⟨fun hi => ?_, fun hi => ?_, fun hg => ?_, List.nodup_nil⟩⟩
    · rintro d g ⟨_, _, hmem⟩
      cases hmem
    · cases hi
    · cases hi
    · cases hi
    · rintro g m i ⟨_, _, hmem⟩
      cases hmem
    · cases hi
    · cases hi
    · cases hg
  · intro h c q eff _ ih hg hq
    obtain ⟨-, hzero, hnew⟩ := hg
    obtain ⟨st', hst', rfl⟩ := call_eq_ok.mp hq
    cases q with
    | mint sender geneId newGene newKitty =>
      cases hst'
      exact ih.mint hzero (hnew newKitty (List.mem_cons_of_mem _ (List.mem_singleton_self _)))
    | provideGene sender kitty recipient newGene =>
      obtain ⟨k, hk, rfl⟩ := provideGene_eq_ok.mp hst'
      exact ih.provideGene hk hzero (hnew newGene (List.mem_singleton_self _))
    | breed sender gene kitty newGene newKitty =>
      obtain ⟨g, k, hg, hk, -, -, rfl⟩ := breed_eq_ok.mp hst'
      exact ih.breed hg hk hzero
        (hnew newKitty (List.mem_cons_of_mem _ (List.mem_singleton_self _)))
  · intro h c q f _ ih hg _
    exact ih.failed hg.2.1

section Lineage

variable {h : History A I} {c : Config (Store A I) Empty}

/-- Where nobody breeds, nothing is consumed. -/
theorem consumed_eq_nil (hr : machine.Run (fun h c e => FreshIds h c e ∧ Childless h c e)
    ⟨genesis A I, 0⟩ h c) : consumed h = [] := by
  refine hr.call_invariant (I := fun h _ => consumed h = []) rfl ?_ ?_
  · intro h c q eff _ ih hg hq
    obtain ⟨st', hst', rfl⟩ := call_eq_ok.mp hq
    cases q with
    | mint sender geneId newGene newKitty => exact ih
    | provideGene sender kitty recipient newGene => exact ih
    | breed sender gene kitty newGene newKitty =>
      obtain ⟨g, k, hgene, hkitty, hkfit, hgfit, -⟩ := breed_eq_ok.mp hst'
      exact absurd ⟨g, k, hgene, hkitty, hkfit, hgfit⟩ hg.2
  · intro h c q f _ ih _ _
    cases q <;> exact ih

/-- Where somebody did, something was consumed. -/
theorem childless_or_consumed (hr : machine.Run FreshIds ⟨genesis A I, 0⟩ h c) :
    machine.Run (fun h c e => FreshIds h c e ∧ Childless h c e) ⟨genesis A I, 0⟩ h c ∨
      consumed h ≠ [] := by
  refine hr.call_invariant (I := fun h c => machine.Run (fun h c e => FreshIds h c e ∧
    Childless h c e) ⟨genesis A I, 0⟩ h c ∨ consumed h ≠ []) (.inl .nil) ?_ ?_
  · intro h c q eff _ ih hg hq
    cases q with
    | mint sender geneId newGene newKitty =>
      exact ih.imp_left fun hrun => .step hrun (.callOk hq) ⟨hg, trivial⟩
    | provideGene sender kitty recipient newGene =>
      exact ih.imp_left fun hrun => .step hrun (.callOk hq) ⟨hg, trivial⟩
    | breed sender gene kitty newGene newKitty => exact .inr (List.cons_ne_nil _ _)
  · intro h c q f _ ih hg hq
    cases q with
    | mint sender geneId newGene newKitty =>
      exact ih.imp_left fun hrun => .step hrun (.callError hq) ⟨hg, trivial⟩
    | provideGene sender kitty recipient newGene =>
      exact ih.imp_left fun hrun => .step hrun (.callError hq) ⟨hg, trivial⟩
    | breed sender gene kitty newGene newKitty =>
      refine ih.imp_left fun hrun => .step hrun (.callError hq) ⟨hg, ?_⟩
      rintro ⟨g, k, hgene, hkitty, hkfit, hgfit⟩
      have hok : machine.call (.breed sender gene kitty newGene newKitty) c.state = .ok _ :=
        call_eq_ok.mpr ⟨_, breed_eq_ok.mpr ⟨g, k, hgene, hkitty, hkfit, hgfit, rfl⟩, rfl⟩
      cases hq.symm.trans hok

/-- **When lineage points at kitties.** In any run with fresh ids, a gene is consumed at most once,
and every kitty was minted or names the kitty that it was bred with. Every kitty also names the
kitty that provided the gene, if and only if nobody has bred: there was no transaction that called
`breed` with a gene and a kitty of the sender that have a mixture. -/
theorem lineage_iff (hr : machine.Run FreshIds ⟨genesis A I, 0⟩ h c) :
    (consumed h).Nodup ∧
    (∀ i o k, c.state.kitties i = some (o, k) →
      (MintedAs h k.id ∧ k.matronId = 0 ∧ k.sireId = 0) ∨
        ∃ g, BredFrom h g k.matronId k.id ∧ (c.state.kitties k.matronId).isSome) ∧
    (((consumed h).Nodup ∧
        ∀ i o k, c.state.kitties i = some (o, k) → Descends h c.state k) ↔
      machine.Run (fun h c e => FreshIds h c e ∧ Childless h c e) ⟨genesis A I, 0⟩ h c) := by
  have hk := kept_of_run hr
  refine ⟨hk.genes.nodup, fun i o k hi => ?_, ?_, fun hrun => ⟨hk.genes.nodup, fun i o k hi => ?_⟩⟩
  · rw [hk.kitties.id_eq hi]
    exact hk.kitties.matron hi
  · rintro ⟨-, hlineage⟩
    refine (childless_or_consumed hr).resolve_right fun hne => ?_
    obtain ⟨g, hg⟩ := List.exists_mem_of_ne_nil _ hne
    obtain ⟨m, i, hb⟩ := mem_consumed.mp hg
    obtain ⟨o, k, hi, hmatron, hsire, hm⟩ := hk.kitties.bred hb
    rcases hlineage i o k hi with ⟨-, hzero, -⟩ | ⟨g', hb', hp, -⟩
    · rw [← hmatron, hzero] at hm
      exact hk.zero hm
    · -- The sire of the record is the gene, which did not provide itself.
      obtain ⟨o', k', hi', -, hsire', -⟩ := hk.kitties.bred hb'
      rw [hk.kitties.id_eq hi, hi] at hi'
      cases hi'
      rw [hsire'] at hp
      exact hk.provided_ne hp rfl
  · have hnil := consumed_eq_nil hrun
    rcases hk.kitties.matron hi with ⟨hm, hids⟩ | ⟨g, hb, -⟩
    · rw [← hk.kitties.id_eq hi] at hm
      exact .inl ⟨hm, hids⟩
    · have hg := mem_consumed.mpr ⟨_, _, hb⟩
      rw [hnil] at hg
      exact absurd hg List.not_mem_nil

end Lineage

/-- A kitty is minted and provides a gene, and nobody breeds. -/
theorem lineage_unbred : ∃ (h : History Bool ℕ) (c : Config (Store Bool ℕ) Empty),
    machine.Run FreshIds ⟨genesis Bool ℕ, 0⟩ h c ∧
    calls h = [.provideGene true 2 false 3, .mint true 9 1 2] ∧
    (consumed h).Nodup ∧ ∀ i o k, c.state.kitties i = some (o, k) → Descends h c.state k := by
  obtain ⟨⟨h, c⟩, hx, hcalls, hnil⟩ :
      ∃ r ∈ machine.exec FreshIds ⟨genesis Bool ℕ, 0⟩
        [.call (.mint true 9 1 2), .call (.provideGene true 2 false 3)],
        calls r.1 = [.provideGene true 2 false 3, .mint true 9 1 2] ∧ consumed r.1 = [] := by
    decide
  have hr := Machine.exec_run hx
  have hrun := (childless_or_consumed hr).resolve_right fun hne => hne hnil
  exact ⟨h, c, hr, hcalls, (lineage_iff hr).2.2.mpr hrun⟩

/-- Kitty 2 provides the gene 5, and kitty 4 is bred with it. The sire on the record of the child is
5, and there is no such kitty. -/
theorem sire_is_gene : ∃ (h : History Bool ℕ) (c : Config (Store Bool ℕ) Empty),
    machine.Run FreshIds ⟨genesis Bool ℕ, 0⟩ h c ∧
    h = [.call (.breed false 5 4 6 7) (.ok ()), .call (.provideGene true 2 false 5) (.ok ()),
      .call (.mint false 4 3 4) (.ok ()), .call (.mint true 9 1 2) (.ok ())] ∧
    c.state.kitties 7 = some (false, ⟨7, ⟨6, 6⟩, 4, 5⟩) ∧ c.state.kitties 5 = none ∧
    ¬ Descends h c.state ⟨7, ⟨6, 6⟩, 4, 5⟩ := by
  obtain ⟨⟨h, c⟩, hx, hh, hchild, hnone⟩ :
      ∃ r ∈ machine.exec FreshIds ⟨genesis Bool ℕ, 0⟩ [.call (.mint true 9 1 2),
          .call (.mint false 4 3 4), .call (.provideGene true 2 false 5),
          .call (.breed false 5 4 6 7)],
        r.1 = [.call (.breed false 5 4 6 7) (.ok ()), .call (.provideGene true 2 false 5) (.ok ()),
          .call (.mint false 4 3 4) (.ok ()), .call (.mint true 9 1 2) (.ok ())] ∧
        r.2.state.kitties 7 = some (false, ⟨7, ⟨6, 6⟩, 4, 5⟩) ∧ r.2.state.kitties 5 = none :=
    ⟨_, rfl, rfl, rfl, rfl⟩
  refine ⟨h, c, Machine.exec_run hx, hh, hchild, hnone, ?_⟩
  rintro (⟨-, hzero, -⟩ | ⟨g, -, -, -, hsire⟩)
  · cases hzero
  · rw [hnone] at hsire
    cases hsire

end KittyBreeding

end Sui

end RelayContracts
