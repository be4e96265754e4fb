import RelayContracts.Association
import RelayContracts.Tasks
import Mathlib.Data.List.FinRange

/-!
# Executing transactions in memory

The single node benchmark can execute certified transactions on a store in memory. A transaction
reads its input objects, each under a lock of its own, is executed, and then its effect on the store
is committed under one lock. Transactions without shared objects are spawned as tasks of their own,
all at once; with shared objects they are executed one after another.

The store does not notice if two transactions take the same version of an object: between the reads
and the commit nothing is locked (`conflict_undetected`). Where no transaction writes what another
one reads or writes, the tasks can be interleaved in any way, and the outcome is that of executing
them one after another (`executesInMemory_unique`).

What the executor does is a `ReadProgram`, since it reads child objects and packages as it goes. The
cache of packages is transparent, because packages do not change. A task that panics fails.

## Main definitions

* `commitObjects`, `readObjectsForExecution`, `executeTransactionInMemory`,
  `ExecutesInMemory` — the functions of the source

## Main results

* `executesInMemory_unique` — tasks side by side have the outcome of executing them in order
* `inMemory_completes` — no task panics, and all of them can end
* `conflict_undetected` — two transactions on one version of an object can both succeed
-/

namespace RelayContracts

namespace Sui

namespace ObjectStore

open ReadProgram Tasks

/-- Who owns an object. -/
inductive Owner (K : Type) where
  /-- An address. -/
  | addressOwner (address : K)
  /-- Another object. -/
  | objectOwner (parent : K)
  /-- It is shared. -/
  | shared
  /-- It is immutable. -/
  | immutable
  deriving DecidableEq

/-- An object. -/
structure Object (K C : Type) where
  /-- `version`. -/
  version : ℕ
  /-- `owner`. -/
  owner : Owner K
  /-- What is in it. -/
  contents : C

/-- `InputObjectKind`. -/
inductive InputObjectKind (K : Type) where
  /-- A package. -/
  | movePackage (id : K)
  /-- An object that is immutable or owned, at a version. -/
  | immOrOwnedMoveObject (id : K) (version : ℕ)
  /-- A shared object. -/
  | sharedMoveObject (id : K)

/-- `InnerTemporaryStore`, as far as it is committed. -/
structure InnerTemporaryStore (K C : Type) where
  /-- The ids of `mutable_inputs`. -/
  mutableInputs : List K
  /-- `written`. -/
  written : List (K × Object K C)

/-- What the executor asks the store for. -/
inductive Query (K : Type) where
  /-- `get_object`. -/
  | object (id : K)
  /-- `get_object_by_key`. -/
  | objectByKey (id : K) (version : ℕ)
  /-- `get_package_object`. -/
  | package (id : K)
  /-- `read_child_object`. -/
  | child (parent child : K) (childVersionUpperBound : ℕ)
  /-- `get_object_received_at_version`, which is not implemented. -/
  | received

/-- What the store is for: the objects that there are. -/
abbrev Objects (K C : Type) := K → Option (Object K C)

/-- What execution is built on, for transactions `T` with effects `E`. -/
structure Env (K C T E : Type) where
  /-- `input_objects`, which can fail. -/
  inputObjects : T → Option (List (InputObjectKind K))
  /-- `contains_shared_object`. -/
  containsSharedObject : T → Bool
  /-- The version that `get_shared_locks` has for an object. -/
  sharedLocks : T → K → Option ℕ
  /-- What is made of an object that is asked for as a package. The error is for another object. -/
  asPackage : Object K C → Except Unit (Object K C)
  /-- Whether `check_certificate_input` succeeds. -/
  checkCertificateInput : T → List (Object K C) → Bool
  /-- `execute_transaction_to_effects`. -/
  execute : T → List (Object K C) →
    ReadProgram (Query K) (Except Unit (Option (Object K C))) (InnerTemporaryStore K C × E)
  /-- Whether the status of effects is that of a success. -/
  isOk : E → Bool

variable {K C T E : Type} [DecidableEq K] {env : Env K C T E} {st : Objects K C}

/-! ### The store -/

/-- `commit_objects`. -/
def commitObjects (inner : InnerTemporaryStore K C) (objects : Objects K C) : Objects K C :=
  let objects := inner.mutableInputs.foldl (fun objects objectId =>
    if objectId ∉ inner.written.map Prod.fst then Function.update objects objectId none
    else objects) objects
  inner.written.foldl (fun objects p => Function.update objects p.1 (some p.2)) objects

/-- `get_object_by_key`, of the object that was found. -/
def atVersion (version : ℕ) (o : Object K C) : Option (Object K C) :=
  if o.version = version then some o else none

/-- `read_child_object`, of the object that was found. -/
def asChild (parent : K) (childVersionUpperBound : ℕ) (o : Object K C) : Option (Object K C) :=
  if o.version ≤ childVersionUpperBound ∧ o.owner = .objectOwner parent then some o else none

/-! ### One transaction -/

/-- `read_objects_for_execution`, and what is done with the objects. -/
def readObjectsForExecution (env : Env K C T E) (tx : T) :
    List (InputObjectKind K) → List (Object K C) →
      (List (Object K C) → Job K (Option (Object K C)) (InnerTemporaryStore K C) E) →
      Job K (Option (Object K C)) (InnerTemporaryStore K C) E
  | [], inputObjects, next => next inputObjects
  | kind :: kinds, inputObjects, next =>
    let push : Option (Object K C) → Job K (Option (Object K C)) (InnerTemporaryStore K C) E
      | none => .done none
      | some obj => readObjectsForExecution env tx kinds (inputObjects ++ [obj]) next
    match kind with
    | .movePackage id => .read id fun o => push (o.bind fun o => (env.asPackage o).toOption)
    | .immOrOwnedMoveObject id version => .read id fun o => push (o.bind (atVersion version))
    | .sharedMoveObject id =>
      match env.sharedLocks tx id with
      | none => .done none
      | some version => .read id fun o => push (o.bind (atVersion version))

/-- The executor on the store. Effects that are not a success make the task panic. -/
def runExecutor (env : Env K C T E) :
    ReadProgram (Query K) (Except Unit (Option (Object K C))) (InnerTemporaryStore K C × E) →
      Job K (Option (Object K C)) (InnerTemporaryStore K C) E
  | .done (inner, effects) => .done (if env.isOk effects then some (inner, effects) else none)
  | .read q next =>
    match q with
    | .object id => .read id fun o => runExecutor env (next (.ok o))
    | .objectByKey id version =>
      .read id fun o => runExecutor env (next (.ok (o.bind (atVersion version))))
    | .package id => .read id fun o => runExecutor env (next (o.mapM env.asPackage))
    | .child parent child bound =>
      .read child fun o => runExecutor env (next (.ok (o.bind (asChild parent bound))))
    | .received => .done none

/-- `execute_transaction_in_memory`, up to the commit. -/
def executeTransactionInMemory (env : Env K C T E) (tx : T) :
    Job K (Option (Object K C)) (InnerTemporaryStore K C) E :=
  match env.inputObjects tx with
  | none => .done none
  | some kinds =>
    readObjectsForExecution env tx kinds [] fun objects =>
      if !env.checkCertificateInput tx objects then .done none
      else runExecutor env (env.execute tx objects)

/-! ### What is committed -/

/-- What `commit_objects` does to the places it changes. -/
def InnerTemporaryStore.writes (inner : InnerTemporaryStore K C) :
    List (K × Option (Object K C)) :=
  (inner.mutableInputs.filter (· ∉ inner.written.map Prod.fst)).map (fun id => (id, none)) ++
    inner.written.map fun p => (p.1, some p.2)

theorem commitObjects_eq (inner : InnerTemporaryStore K C) (objects : Objects K C) :
    commitObjects inner objects =
      inner.writes.foldl (fun f p => Function.update f p.1 p.2) objects := by
  rw [InnerTemporaryStore.writes, List.foldl_append, List.foldl_map, List.foldl_map,
    List.foldl_filter]
  simp only [commitObjects, decide_eq_true_eq]

/-- What a transaction commits. -/
def commits (K C : Type) [DecidableEq K] :
    Commits (InnerTemporaryStore K C) K (Option (Object K C)) where
  commit := commitObjects
  keys := fun inner => inner.writes.map Prod.fst
  commit_of_not_mem := fun s h => by
    rw [commitObjects_eq]
    exact Association.foldl_update_of_not_mem
      (fun p hp heq => h (List.mem_map.mpr ⟨p, hp, heq⟩)) s
  commit_of_mem := fun s s' h => by
    rw [commitObjects_eq, commitObjects_eq]
    exact Association.foldl_update_congr h s s'

/-! ### All transactions -/

/-- The transactions one after another. -/
def executeInOrder (env : Env K C T E) (txs : List T) (st : Objects K C) :
    Option (List E × Objects K C) :=
  inOrder (commits K C) (executeTransactionInMemory env) txs st

/-- The tasks that are spawned for transactions. -/
def spawned (env : Env K C T E) (txs : List T) (i : Fin txs.length) :
    Job K (Option (Object K C)) (InnerTemporaryStore K C) E :=
  executeTransactionInMemory env (txs.get i)

/-- `execute_transactions_in_memory`: the effects it returns and the store it leaves. The effects of
tasks are in the order in which these come to their end. -/
inductive ExecutesInMemory (env : Env K C T E) (txs : List T) (st : Objects K C) :
    List E → Objects K C → Prop
  /-- With a shared object. -/
  | inOrder {effects : List E} {st' : Objects K C}
      (hshared : txs.any env.containsSharedObject = true)
      (h : executeInOrder env txs st = some (effects, st')) :
      ExecutesInMemory env txs st effects st'
  /-- Without. -/
  | spawned {s : State (Fin txs.length) K (Option (Object K C)) (InnerTemporaryStore K C) E}
      {effects awaited : List E} (hshared : txs.any env.containsSharedObject = false)
      (hrun : Reachable (commits K C) (spawned env txs) st s)
      (hdone : (List.finRange txs.length).map s.task = effects.map .done)
      (hawaited : awaited.Perm effects) : ExecutesInMemory env txs st awaited s.store

theorem inOrder_spawned (env : Env K C T E) (txs : List T) (st : Objects K C) :
    inOrder (commits K C) (spawned env txs) (List.finRange txs.length) st =
      executeInOrder env txs st := by
  have h := inOrder_map (c := commits K C) (executeTransactionInMemory env) txs.get
    (List.finRange txs.length) st
  rwa [show (List.finRange txs.length).map txs.get = txs by simp] at h

omit [DecidableEq K] in
theorem done_of_map {txs : List T}
    {s : State (Fin txs.length) K (Option (Object K C)) (InnerTemporaryStore K C) E}
    {effects : List E} (h : (List.finRange txs.length).map s.task = effects.map .done)
    (i : Fin txs.length) : ∃ e, s.task i = .done e := by
  have hmem : s.task i ∈ effects.map TaskState.done :=
    h ▸ List.mem_map_of_mem (List.mem_finRange i)
  obtain ⟨e, -, he⟩ := List.mem_map.mp hmem
  exact ⟨e, he.symm⟩

/-- However the tasks are interleaved, the store they leave is the one that executing the
transactions one after another leaves, and the effects are the same up to their order. -/
theorem exists_inOrder_of_executes {txs : List T} {effects : List E} {st' : Objects K C}
    (hind : txs.any env.containsSharedObject = false →
      Independent (commits K C) (spawned env txs) st)
    (h : ExecutesInMemory env txs st effects st') :
    ∃ inOrderEffects, executeInOrder env txs st = some (inOrderEffects, st') ∧
      effects.Perm inOrderEffects := by
  cases h with
  | inOrder _ h => exact ⟨effects, h, .refl _⟩
  | @spawned s effects' _ hshared hrun hdone hawaited =>
    obtain ⟨es, hseq, htasks⟩ := hrun.eq_inOrder (hind hshared) (done_of_map hdone)
      (List.nodup_finRange _) List.mem_finRange
    rw [inOrder_spawned] at hseq
    have heq : effects' = es :=
      List.map_injective_iff.mpr (fun _ _ => TaskState.done.inj) (hdone.symm.trans htasks)
    exact ⟨es, hseq, heq ▸ hawaited⟩

/-- **How the tasks are interleaved cannot be seen.** Any two executions of the transactions leave
the same store, which is the one that executing them one after another leaves, and their effects
are the same up to the order. -/
theorem executesInMemory_unique {txs : List T} {effects₁ effects₂ : List E}
    {st₁ st₂ : Objects K C}
    (hind : txs.any env.containsSharedObject = false →
      Independent (commits K C) (spawned env txs) st)
    (h₁ : ExecutesInMemory env txs st effects₁ st₁)
    (h₂ : ExecutesInMemory env txs st effects₂ st₂) :
    st₁ = st₂ ∧ effects₁.Perm effects₂ ∧
      ∃ effects, executeInOrder env txs st = some (effects, st₁) ∧ effects₁.Perm effects := by
  obtain ⟨effects, hseq₁, hperm₁⟩ := exists_inOrder_of_executes hind h₁
  obtain ⟨effects', hseq₂, hperm₂⟩ := exists_inOrder_of_executes hind h₂
  obtain ⟨rfl, rfl⟩ := Prod.mk.inj (Option.some.inj (hseq₁.symm.trans hseq₂))
  exact ⟨rfl, hperm₁.trans hperm₂.symm, effects, hseq₁, hperm₁⟩

/-- A node on which transaction `t` takes version 1 of object `t / 2` and writes version 2. -/
def movingNode : Env ℕ Unit ℕ ℕ where
  inputObjects := fun t => some [.immOrOwnedMoveObject (t / 2) 1]
  containsSharedObject := fun _ => false
  sharedLocks := fun _ _ => none
  asPackage := .ok
  checkCertificateInput := fun _ _ => true
  execute := fun t _ => .done (⟨[t / 2], [(t / 2, ⟨2, .addressOwner t, ()⟩)]⟩, t)
  isOk := fun _ => true

/-- Every object is there, at version 1. -/
def freshObjects : Objects ℕ Unit := fun _ => some ⟨1, .addressOwner 0, ()⟩

theorem eval_movingNode (t : ℕ) : eval freshObjects (executeTransactionInMemory movingNode t) =
    some (⟨[t / 2], [(t / 2, ⟨2, .addressOwner t, ()⟩)]⟩, t) :=
  rfl

theorem queried_movingNode (t : ℕ) :
    queried freshObjects (executeTransactionInMemory movingNode t) = [t / 2] :=
  rfl

theorem keys_movingNode (t : ℕ) :
    (commits ℕ Unit).keys ⟨[t / 2], [(t / 2, ⟨2, .addressOwner t, ()⟩)]⟩ = [t / 2] := by
  simp [commits, InnerTemporaryStore.writes]

theorem independent_movingNode :
    Independent (commits ℕ Unit) (spawned movingNode [0, 2]) freshObjects := by
  have hne : ∀ i j : Fin 2, i ≠ j → [0, 2].get i / 2 ≠ [0, 2].get j / 2 := by decide
  constructor
  · intro i j w r k hij hw hk
    obtain ⟨rfl, -⟩ := Prod.mk.inj (Option.some.inj ((eval_movingNode _).symm.trans hw))
    rw [keys_movingNode, List.mem_singleton] at hk
    rw [spawned, queried_movingNode, List.mem_singleton, hk]
    exact hne i j hij
  · intro i j w r w' r' k hij hw hw' hk
    obtain ⟨rfl, -⟩ := Prod.mk.inj (Option.some.inj ((eval_movingNode _).symm.trans hw))
    obtain ⟨rfl, -⟩ := Prod.mk.inj (Option.some.inj ((eval_movingNode _).symm.trans hw'))
    rw [keys_movingNode, List.mem_singleton] at hk
    rw [keys_movingNode, List.mem_singleton, hk]
    exact hne i j hij

/-- The tasks can be awaited in either order. -/
theorem executes_movingNode : ∃ st', ExecutesInMemory movingNode [0, 2] freshObjects [0, 2] st' ∧
    ExecutesInMemory movingNode [0, 2] freshObjects [2, 0] st' := by
  obtain ⟨s, hrun, hdone⟩ := exists_all_done (c := commits ℕ Unit) (List.nodup_finRange 2)
    fun i _ => eval_movingNode ([0, 2].get i)
  have htasks : (List.finRange 2).map s.task = [0, 2].map .done := List.map_congr_left hdone
  exact ⟨s.store, .spawned rfl hrun htasks (.refl _), .spawned rfl hrun htasks (.swap 0 2 [])⟩

theorem executesInMemory_unique_twoTasks : ∃ st₁ st₂,
    ExecutesInMemory movingNode [0, 2] freshObjects [0, 2] st₁ ∧
      ExecutesInMemory movingNode [0, 2] freshObjects [2, 0] st₂ ∧
      st₁ = st₂ ∧ [0, 2].Perm [2, 0] ∧
      ∃ effects, executeInOrder movingNode [0, 2] freshObjects = some (effects, st₁) ∧
        [0, 2].Perm effects := by
  obtain ⟨st', h₁, h₂⟩ := executes_movingNode
  exact ⟨st', st', h₁, h₂, executesInMemory_unique (fun _ => independent_movingNode) h₁ h₂⟩

/-- **No task panics.** If every transaction succeeds alone, the tasks can be brought to their end
from wherever they are, and none of them panics on the way. -/
theorem inMemory_completes {txs : List T}
    {s : State (Fin txs.length) K (Option (Object K C)) (InnerTemporaryStore K C) E}
    (hind : Independent (commits K C) (spawned env txs) st)
    (halone : ∀ tx ∈ txs, (eval st (executeTransactionInMemory env tx)).isSome)
    (hrun : Reachable (commits K C) (spawned env txs) st s) :
    (∀ i, s.task i ≠ .failed) ∧
      ∃ s', Relation.ReflTransGen (Step (commits K C)) s s' ∧ ∀ i, ∃ e, s'.task i = .done e := by
  have halone' : ∀ i, (eval st (spawned env txs i)).isSome :=
    fun i => halone _ (List.get_mem txs i)
  obtain ⟨s', hrun', hdone⟩ := hrun.exists_done hind halone' (List.finRange txs.length)
  exact ⟨fun i => hrun.not_failed hind (halone' i), s', hrun',
    fun i => hdone i (List.mem_finRange i)⟩

theorem inMemory_completes_twoTasks :
    (∀ i, (start (spawned movingNode [0, 2]) freshObjects).task i ≠ .failed) ∧
      ∃ s', Relation.ReflTransGen (Step (commits ℕ Unit))
        (start (spawned movingNode [0, 2]) freshObjects) s' ∧ ∀ i, ∃ e, s'.task i = .done e :=
  inMemory_completes independent_movingNode (fun tx _ => by rw [eval_movingNode]; rfl) .refl

/-! ### Conflicts -/

omit [DecidableEq K] in
/-- A transaction panics if one of its owned inputs is not there at its version. -/
theorem eval_readObjects_of_stale {tx : T} {kinds : List (InputObjectKind K)} {id : K}
    {version : ℕ} (hmem : .immOrOwnedMoveObject id version ∈ kinds)
    (hstale : (st id).bind (atVersion version) = none) (inputObjects : List (Object K C))
    (next : List (Object K C) → Job K (Option (Object K C)) (InnerTemporaryStore K C) E) :
    eval st (readObjectsForExecution env tx kinds inputObjects next) = none := by
  induction kinds generalizing inputObjects with
  | nil => cases hmem
  | cons kind kinds ih =>
    -- another input that is not there makes it panic before
    have hpush : ∀ o : Option (Object K C), .immOrOwnedMoveObject id version ∈ kinds →
        eval st (match o with
          | none => .done none
          | some obj => readObjectsForExecution env tx kinds (inputObjects ++ [obj]) next) =
          none := by
      intro o htail
      cases o with
      | none => rfl
      | some obj => exact ih htail _
    cases kind with
    | movePackage id' =>
      exact hpush _ ((List.mem_cons.mp hmem).resolve_left (by simp))
    | sharedMoveObject id' =>
      rw [readObjectsForExecution]
      cases env.sharedLocks tx id' with
      | none => rfl
      | some v => exact hpush _ ((List.mem_cons.mp hmem).resolve_left (by simp))
    | immOrOwnedMoveObject id' version' =>
      rcases List.mem_cons.mp hmem with heq | htail
      · cases heq
        rw [readObjectsForExecution, eval, hstale]
        rfl
      · exact hpush _ htail

theorem eval_of_stale {tx : T} {kinds : List (InputObjectKind K)} {id : K} {version : ℕ}
    (hkinds : env.inputObjects tx = some kinds)
    (hmem : .immOrOwnedMoveObject id version ∈ kinds)
    (hstale : (st id).bind (atVersion version) = none) :
    eval st (executeTransactionInMemory env tx) = none := by
  simp only [executeTransactionInMemory, hkinds]
  exact eval_readObjects_of_stale hmem hstale [] _

/-- **The store does not notice a conflict.** Of two transactions that succeed alone, the second
one panics if it is executed after the first one and takes an object that the first one has
changed. As tasks side by side both can succeed, with the effects they have alone. -/
theorem conflict_undetected {tx₁ tx₂ : T} {inner₁ inner₂ : InnerTemporaryStore K C} {e₁ e₂ : E}
    (h₁ : eval st (executeTransactionInMemory env tx₁) = some (inner₁, e₁))
    (h₂ : eval st (executeTransactionInMemory env tx₂) = some (inner₂, e₂))
    {kinds : List (InputObjectKind K)} {id : K} {version : ℕ}
    (hkinds : env.inputObjects tx₂ = some kinds)
    (hmem : .immOrOwnedMoveObject id version ∈ kinds)
    (hchanged : (commitObjects inner₁ st id).bind (atVersion version) = none) :
    executeInOrder env [tx₁, tx₂] st = none ∧
      ∃ s, Reachable (commits K C) (spawned env [tx₁, tx₂]) st s ∧
        s.task 0 = .done e₁ ∧ s.task 1 = .done e₂ := by
  constructor
  · have hstale : eval ((commits K C).commit inner₁ st) (executeTransactionInMemory env tx₂) =
        none := eval_of_stale hkinds hmem hchanged
    simp [executeInOrder, inOrder, h₁, hstale]
  · have halone : ∀ i : Fin 2, eval st (spawned env [tx₁, tx₂] i) =
        some (if i = 0 then inner₁ else inner₂, if i = 0 then e₁ else e₂) :=
      Fin.forall_fin_two.mpr ⟨h₁, h₂⟩
    obtain ⟨s, hrun, hdone⟩ :=
      exists_all_done (c := commits K C) (List.nodup_finRange 2) fun i _ => halone i
    exact ⟨s, hrun, hdone 0 (List.mem_finRange 0), hdone 1 (List.mem_finRange 1)⟩

theorem conflict_undetected_twoTasks :
    executeInOrder movingNode [0, 1] freshObjects = none ∧
      ∃ s, Reachable (commits ℕ Unit) (spawned movingNode [0, 1]) freshObjects s ∧
        s.task 0 = .done 0 ∧ s.task 1 = .done 1 :=
  conflict_undetected (eval_movingNode 0) (eval_movingNode 1) rfl List.mem_cons_self rfl

end ObjectStore

end Sui

end RelayContracts
