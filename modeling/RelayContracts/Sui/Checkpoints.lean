import RelayContracts.Sui.ObjectStore

/-!
# Building checkpoints

The checkpoint benchmark executes its transactions in memory for their effects, and puts the
transactions with their effects into checkpoints of a given size, in the order of the transactions.
The effects come in the order in which the tasks have ended, and are looked up by the digest of the
transaction. So what is in the checkpoints does not depend on how the tasks were interleaved
(`checkpoints_of_execution`).

`MockCheckpointBuilder` is not part of the benchmark. It is a parameter, a `Builder`, and what is
asked of it is `Builder.Correct`: there is a reading of its states and of its checkpoints by which
`push_transaction` adds a transaction, `size` counts what was added, and `build` makes a checkpoint
of that, with the next number, and begins anew. When a checkpoint is built, and from what, is the
doing of `build_checkpoints`.

## Main definitions

* `Builder`, `Builder.Correct` — what is used of the builder, and what it owes
* `effectsByDigest`, `buildCheckpoints` — the functions of the source
* `sealAll` — checkpoints of transactions whose effects are at hand

## Main results

* `checkpoints_of_execution` — the checkpoints are determined by execution in order
-/

namespace RelayContracts

namespace Sui

namespace Checkpoints

open ObjectStore ReadProgram Tasks

/-- What `build_checkpoints` uses of `MockCheckpointBuilder`: `B` is the builder, `P` the certified
checkpoint it begins with, and `C` a checkpoint with its full contents. -/
structure Builder (P T E C B : Type) where
  /-- `new(previous_checkpoint)`. -/
  new : P → B
  /-- `push_transaction(transaction, effects)`. -/
  pushTransaction : B → T → E → B
  /-- `size()`. -/
  size : B → ℕ
  /-- `build(..)`: what it returns, and the builder after it. -/
  build : B → C × B

variable {D P T E C B : Type}

/-- What a builder owes. -/
structure Builder.Correct (b : Builder P T E C B) where
  /-- What was pushed and is in no checkpoint yet. -/
  pending : B → List (T × E)
  /-- The number of the checkpoint before. -/
  previous : B → ℕ
  /-- The transactions of a checkpoint with their effects. -/
  contents : C → List (T × E)
  /-- `sequence_number`. -/
  sequenceNumber : C → ℕ
  /-- It begins with nothing. -/
  pending_new : ∀ latest, pending (b.new latest) = []
  /-- A transaction is added after those before it. -/
  pending_push : ∀ st tx e, pending (b.pushTransaction st tx e) = pending st ++ [(tx, e)]
  /-- Adding does not number anything. -/
  previous_push : ∀ st tx e, previous (b.pushTransaction st tx e) = previous st
  /-- The size is what is pending. -/
  size_eq : ∀ st, b.size st = (pending st).length
  /-- A checkpoint is made of what is pending. -/
  contents_build : ∀ st, contents (b.build st).1 = pending st
  /-- It has the next number. -/
  sequenceNumber_build : ∀ st, sequenceNumber (b.build st).1 = previous st + 1
  /-- Then nothing is pending. -/
  pending_build : ∀ st, pending (b.build st).2 = []
  /-- And the next checkpoint comes after it. -/
  previous_build : ∀ st, previous (b.build st).2 = previous st + 1

/-- The effects, collected in a map by the digests of their transactions. -/
def effectsByDigest [DecidableEq D] (transactionDigest : E → D) (effects : List E) :
    D → Option E :=
  (effects.map fun e => (transactionDigest e, some e)).foldl
    (fun m p => Function.update m p.1 p.2) fun _ => none

/-- The loop of `build_checkpoints`. It panics where effects are missing. -/
def buildLoop [DecidableEq D] (b : Builder P T E C B) (digest : T → D) (checkpointSize : ℕ) :
    List T → (D → Option E) → B → List C → Option (List C)
  | [], _, builder, checkpoints =>
    if b.size builder > 0 then some (checkpoints ++ [(b.build builder).1]) else some checkpoints
  | tx :: txs, allEffects, builder, checkpoints => do
    let effects ← allEffects (digest tx)
    let allEffects := Function.update allEffects (digest tx) none
    let builder := b.pushTransaction builder tx effects
    if b.size builder = checkpointSize then
      buildLoop b digest checkpointSize txs allEffects (b.build builder).2
        (checkpoints ++ [(b.build builder).1])
    else buildLoop b digest checkpointSize txs allEffects builder checkpoints

/-- `build_checkpoints`, after a latest certified checkpoint. -/
def buildCheckpoints [DecidableEq D] (b : Builder P T E C B) (digest : T → D) (latest : P)
    (txs : List T) (allEffects : D → Option E) (checkpointSize : ℕ) : Option (List C) :=
  buildLoop b digest checkpointSize txs allEffects (b.new latest) []

/-! ### Without the map -/

/-- The checkpoints of transactions whose effects are at hand. -/
def sealAll (b : Builder P T E C B) (checkpointSize : ℕ) : B → List (T × E) → List C
  | builder, [] => if b.size builder > 0 then [(b.build builder).1] else []
  | builder, (tx, e) :: ps =>
    let builder := b.pushTransaction builder tx e
    if b.size builder = checkpointSize then
      (b.build builder).1 :: sealAll b checkpointSize (b.build builder).2 ps
    else sealAll b checkpointSize builder ps

/-- If every transaction has its effects in the map, and no two have the same digest, taking them
out of the map does not matter. -/
theorem buildLoop_eq [DecidableEq D] {b : Builder P T E C B} {digest : T → D} {checkpointSize : ℕ}
    {txs : List T} {es : List E} {allEffects : D → Option E} (hnodup : (txs.map digest).Nodup)
    (h : List.Forall₂ (fun tx e => allEffects (digest tx) = some e) txs es)
    (builder : B) (checkpoints : List C) :
    buildLoop b digest checkpointSize txs allEffects builder checkpoints =
      some (checkpoints ++ sealAll b checkpointSize builder (txs.zip es)) := by
  induction txs generalizing es allEffects builder checkpoints with
  | nil =>
    cases h
    rw [buildLoop, List.zip_nil_left, sealAll]
    split
    · rfl
    · simp
  | cons tx txs ih =>
    obtain ⟨e, es, he, htail, rfl⟩ := List.forall₂_cons_left_iff.mp h
    obtain ⟨hnot, hnodup⟩ := List.nodup_cons.mp hnodup
    -- the other transactions have other digests, so their effects are still there
    have hrest : List.Forall₂
        (fun tx' e' => Function.update allEffects (digest tx) none (digest tx') = some e')
        txs es := by
      refine List.forall₂_iff_get.mpr ⟨htail.length_eq, fun i hi hi' => ?_⟩
      have hne : digest (txs.get ⟨i, hi⟩) ≠ digest tx :=
        fun heq => hnot (heq ▸ List.mem_map_of_mem (List.get_mem txs ⟨i, hi⟩))
      rw [Function.update_of_ne hne]
      exact htail.get hi hi'
    rw [buildLoop, he, List.zip_cons_cons, sealAll]
    simp only [Option.bind_eq_bind, Option.bind_some]
    split
    · rw [ih hnodup hrest, List.append_assoc, List.singleton_append]
    · exact ih hnodup hrest _ _

/-! ### The shape of the checkpoints -/

section Shape

variable {b : Builder P T E C B} (hb : b.Correct) {checkpointSize : ℕ}

/-- Transactions in checkpoints, in their order: the checkpoints are numbered one after another, all
but the last one are full, and none is empty. -/
inductive Packed (checkpointSize : ℕ) : ℕ → List (T × E) → List C → Prop
  /-- There is nothing to pack. -/
  | nil {n : ℕ} : Packed checkpointSize n [] []
  /-- The last checkpoint is not full. -/
  | last {n : ℕ} {c : C} (hnumber : hb.sequenceNumber c = n + 1) (hpos : 0 < (hb.contents c).length)
      (hlt : 0 < checkpointSize → (hb.contents c).length < checkpointSize) :
      Packed checkpointSize n (hb.contents c) [c]
  /-- A full checkpoint, and others. -/
  | cons {n : ℕ} {c : C} {ps : List (T × E)} {checkpoints : List C}
      (hnumber : hb.sequenceNumber c = n + 1) (hpos : 0 < (hb.contents c).length)
      (hfull : (hb.contents c).length = checkpointSize)
      (hrest : Packed checkpointSize (n + 1) ps checkpoints) :
      Packed checkpointSize n (hb.contents c ++ ps) (c :: checkpoints)

theorem packed_sealAll (builder : B)
    (h : 0 < checkpointSize → b.size builder < checkpointSize) (ps : List (T × E)) :
    Packed hb checkpointSize (hb.previous builder) (hb.pending builder ++ ps)
      (sealAll b checkpointSize builder ps) := by
  induction ps generalizing builder with
  | nil =>
    have hsize := hb.size_eq builder
    rw [sealAll, List.append_nil, ← hb.contents_build]
    rw [← hb.contents_build] at hsize
    split
    · next hpos => exact .last (hb.sequenceNumber_build builder) (hsize ▸ hpos) (hsize ▸ h)
    · next hempty =>
      have hnil : hb.contents (b.build builder).1 = [] :=
        List.eq_nil_of_length_eq_zero (by omega)
      rw [hnil]
      exact .nil
  | cons p ps ih =>
    obtain ⟨tx, e⟩ := p
    set pushed := b.pushTransaction builder tx e with hpushed
    have hsize : b.size pushed = b.size builder + 1 := by
      rw [hb.size_eq, hb.size_eq, hpushed, hb.pending_push, List.length_append,
        List.length_singleton]
    have hsplit : hb.pending builder ++ (tx, e) :: ps = hb.pending pushed ++ ps := by
      rw [hpushed, hb.pending_push, List.append_assoc, List.singleton_append]
    rw [sealAll, hsplit, ← hb.previous_push builder tx e, ← hpushed]
    split
    · next hfull =>
      have hcontents : (hb.contents (b.build pushed).1).length = b.size pushed := by
        rw [hb.contents_build, hb.size_eq]
      have hrest := ih (b.build pushed).2 fun hpos => by
        rwa [hb.size_eq, hb.pending_build]
      rw [hb.previous_build, hb.pending_build, List.nil_append] at hrest
      rw [← hb.contents_build]
      exact .cons (hb.sequenceNumber_build pushed) (by omega) (hcontents.trans hfull) hrest
    · next hnot =>
      refine ih pushed fun hpos => ?_
      have hlt := h hpos
      omega

end Shape

/-! ### Effects by digest -/

theorem effectsByDigest_of_mem [DecidableEq D] {transactionDigest : E → D} {effects : List E}
    (hnodup : (effects.map transactionDigest).Nodup) {e : E} (he : e ∈ effects) :
    effectsByDigest transactionDigest effects (transactionDigest e) = some e := by
  refine Association.foldl_update_of_mem ⟨_, List.mem_map_of_mem he, rfl⟩ ?_ _
  intro p hp heq
  obtain ⟨e', he', rfl⟩ := List.mem_map.mp hp
  exact congrArg some (List.inj_on_of_nodup_map hnodup he' he heq)

theorem digests_eq {digest : T → D} {transactionDigest : E → D} {txs : List T} {es : List E}
    (h : List.Forall₂ (fun tx e => transactionDigest e = digest tx) txs es) :
    es.map transactionDigest = txs.map digest := by
  induction h with
  | nil => rfl
  | cons he _ ih => rw [List.map_cons, List.map_cons, he, ih]

/-- **The checkpoints do not depend on the interleaving.** With a correct builder, whichever way the
tasks are interleaved, the checkpoints hold the transactions in their order, each with the effects
it has when the transactions are executed one after another. -/
theorem checkpoints_of_execution {K V : Type} [DecidableEq K] [DecidableEq D] {env : Env K V T E}
    {b : Builder P T E C B} (hb : b.Correct) {st st' : Objects K V} {txs : List T}
    {effects : List E} {digest : T → D} {transactionDigest : E → D}
    (hind : txs.any env.containsSharedObject = false →
      Independent (commits K V) (spawned env txs) st)
    (hdigest : ∀ tx st inner e, eval st (executeTransactionInMemory env tx) = some (inner, e) →
      transactionDigest e = digest tx)
    (hnodup : (txs.map digest).Nodup) (hexec : ExecutesInMemory env txs st effects st')
    (latest : P) (checkpointSize : ℕ) :
    ∃ inOrderEffects checkpoints, executeInOrder env txs st = some (inOrderEffects, st') ∧
      buildCheckpoints b digest latest txs (effectsByDigest transactionDigest effects)
        checkpointSize = some checkpoints ∧
      Packed hb checkpointSize (hb.previous (b.new latest)) (txs.zip inOrderEffects)
        checkpoints := by
  obtain ⟨es, hseq, hperm⟩ := exists_inOrder_of_executes hind hexec
  have hown : List.Forall₂ (fun tx e => transactionDigest e = digest tx) txs es :=
    (forall₂_of_inOrder hseq).imp fun tx e h => by
      obtain ⟨st, inner, heval⟩ := h
      exact hdigest tx st inner e heval
  have hdigests : (effects.map transactionDigest).Nodup := by
    rw [(hperm.map transactionDigest).nodup_iff, digests_eq hown]
    exact hnodup
  have hlookup : List.Forall₂
      (fun tx e => effectsByDigest transactionDigest effects (digest tx) = some e) txs es := by
    refine List.forall₂_iff_get.mpr ⟨hown.length_eq, fun i hi hi' => ?_⟩
    rw [← hown.get hi hi']
    exact effectsByDigest_of_mem hdigests (hperm.mem_iff.mpr (List.get_mem es ⟨i, hi'⟩))
  refine ⟨es, _, hseq, buildLoop_eq hnodup hlookup _ _, ?_⟩
  have hsize : 0 < checkpointSize → b.size (b.new latest) < checkpointSize := fun hpos => by
    rwa [hb.size_eq, hb.pending_new]
  have hpacked := packed_sealAll hb (b.new latest) hsize (txs.zip es)
  rwa [hb.pending_new] at hpacked

/-- The effects of a transaction of `movingNode` are its number. -/
theorem digest_movingNode (tx : ℕ) (st : Objects ℕ Unit) (inner : InnerTemporaryStore ℕ Unit)
    (e : ℕ) (h : eval st (executeTransactionInMemory movingNode tx) = some (inner, e)) :
    id e = id tx := by
  cases hobj : (st (tx / 2)).bind (atVersion 1) with
  | none => simp [executeTransactionInMemory, movingNode, readObjectsForExecution, eval, hobj] at h
  | some o =>
    simp [executeTransactionInMemory, movingNode, readObjectsForExecution, eval, hobj,
      runExecutor] at h
    exact h.2.symm

/-- A builder that keeps the number of the checkpoint before and the list of what was pushed. -/
def listBuilder : Builder ℕ ℕ ℕ (ℕ × List (ℕ × ℕ)) (ℕ × List (ℕ × ℕ)) where
  new latest := (latest, [])
  pushTransaction st tx e := (st.1, st.2 ++ [(tx, e)])
  size st := st.2.length
  build st := ((st.1 + 1, st.2), (st.1 + 1, []))

/-- It gives what a builder owes. -/
def listBuilder_correct : listBuilder.Correct where
  pending := Prod.snd
  previous := Prod.fst
  contents := Prod.snd
  sequenceNumber := Prod.fst
  pending_new _ := rfl
  pending_push _ _ _ := rfl
  previous_push _ _ _ := rfl
  size_eq _ := rfl
  contents_build _ := rfl
  sequenceNumber_build _ := rfl
  pending_build _ := rfl
  previous_build _ := rfl

/-- Two transactions whose tasks have ended in the opposite order, in checkpoints of one. -/
theorem checkpoints_of_execution_twoTasks : ∃ st',
    ExecutesInMemory movingNode [0, 2] freshObjects [2, 0] st' ∧
      ∃ inOrderEffects checkpoints,
        executeInOrder movingNode [0, 2] freshObjects = some (inOrderEffects, st') ∧
        buildCheckpoints listBuilder id 0 [0, 2] (effectsByDigest id [2, 0]) 1 =
          some checkpoints ∧
        Packed listBuilder_correct 1 0 ([0, 2].zip inOrderEffects) checkpoints := by
  obtain ⟨st', -, h⟩ := executes_movingNode
  exact ⟨st', h, checkpoints_of_execution listBuilder_correct (fun _ => independent_movingNode)
    digest_movingNode (by decide) h 0 1⟩

end Checkpoints

end Sui

end RelayContracts
