import RelayContracts.Aptos.Simulator

/-!
# The forums of the sharded ballot benchmark

`run_ballot_sharding` has the first `shard_num` accounts initialize a forum each, and then has votes
by the other accounts. The forum of a vote is computed from the last byte of the voter's address,
modulo `shard_num as u8`. The cast is what this is about: it keeps the last eight bits of
`shard_num`, so that the modulus is another one from `256` on, and zero at every multiple of it.

The blocks do not depend on the VM, which is run between them and after them. `buildBallotSharding`
is the part that builds them; `runBallotSharding_of_build` and `build_of_runBallotSharding` say how
it sits in the workload.

## Main results

* `ballot_routing_iff` — when every vote goes to the forum that the address says
-/

namespace RelayContracts

namespace Aptos

namespace Simulator

variable {S : Type} (env : Env S)

/-! ### The blocks -/

/-- The first loop of `run_ballot_sharding`. -/
def forumSteps (shardNum : ℕ) : List (Except Panic (ℕ × Payload)) :=
  (List.range shardNum).map fun i => .ok (i, .ballotInitialize proposals)

/-- The second loop of `run_ballot_sharding`. -/
def voteSteps (rand : ℕ → ℕ → ℕ) (transactionNum shardNum accNums : ℕ) :
    List (Except Panic (ℕ × Payload)) :=
  (List.range transactionNum).map fun k => do
    let proposalIndex ← genRange 0 3 (rand k 0)
    let senderIndex ← genRange 0 (accNums - shardNum) (rand k 1)
    let sender := shardNum + senderIndex
    if shardNum % 2 ^ 8 = 0 then .error .divisionByZero
    else .ok (sender, .ballotVote (env.lastByte sender % (shardNum % 2 ^ 8)) proposalIndex)

/-- The blocks that `run_ballot_sharding` builds, with the accounts after them. -/
def buildBallotSharding (rand : ℕ → ℕ → ℕ) (transactionNum shardNum : ℕ) (accounts : List ℕ) :
    Except Panic (List SignedTransaction × List SignedTransaction × List ℕ) := do
  splitAtMut accounts shardNum
  let (accounts₁, initialized) ← sendAll env (forumSteps shardNum) accounts []
  let (accounts₂, votes) ←
    sendAll env (voteSteps env rand transactionNum shardNum accounts.length) accounts₁ []
  .ok (initialized, votes, accounts₂)

variable {env} {rand : ℕ → ℕ → ℕ} {transactionNum shardNum : ℕ} {accounts accounts' : List ℕ}
  {initialized votes txns txns' : List SignedTransaction}

/-- Where the blocks are built, the workload is what the VM makes of them. -/
theorem runBallotSharding_of_build {sim : Similator S}
    (h : buildBallotSharding env rand transactionNum shardNum sim.accounts =
      .ok (initialized, votes, accounts')) :
    runBallotSharding env rand transactionNum shardNum sim = (do
      let stateView ← executeAndApplyTransactions env initialized sim.stateView
      let _ ← executeBlockstmBenchmark env true true env.numCpus none votes stateView
      .ok ⟨initialized, votes, ⟨accounts', stateView⟩⟩) := by
  obtain ⟨_, hsplit, h⟩ := exists_of_bind_eq_ok h
  obtain ⟨⟨accounts₁, initialized₁⟩, hinit, h⟩ := exists_of_bind_eq_ok h
  obtain ⟨⟨accounts₂, votes₂⟩, hvotes, h⟩ := exists_of_bind_eq_ok h
  cases h
  have hrun : runBallotSharding env rand transactionNum shardNum sim = (do
      splitAtMut sim.accounts shardNum
      runBlocks env (forumSteps shardNum)
        (voteSteps env rand transactionNum shardNum sim.accounts.length) sim) := rfl
  rw [hrun, hsplit, ok_bind, runBlocks, hinit, ok_bind]
  simp only [hvotes, ok_bind]

/-- A workload that has finished has built its blocks. -/
theorem build_of_runBallotSharding {sim : Similator S} {r : Executed S}
    (h : runBallotSharding env rand transactionNum shardNum sim = .ok r) :
    buildBallotSharding env rand transactionNum shardNum sim.accounts =
      .ok (r.initialized, r.benchmark, r.similator.accounts) := by
  obtain ⟨_, hsplit, h⟩ := exists_of_bind_eq_ok h
  obtain ⟨⟨accounts₁, initialized⟩, hinit, h⟩ := exists_of_bind_eq_ok h
  obtain ⟨stateView, -, h⟩ := exists_of_bind_eq_ok h
  obtain ⟨⟨accounts₂, votes⟩, hvotes, h⟩ := exists_of_bind_eq_ok h
  obtain ⟨tps, -, h⟩ := exists_of_bind_eq_ok h
  cases h
  have hinit : sendAll env (forumSteps shardNum) sim.accounts [] = _ := hinit
  have hvotes : sendAll env (voteSteps env rand transactionNum shardNum sim.accounts.length)
    accounts₁ [] = _ := hvotes
  rw [buildBallotSharding, hsplit, ok_bind, hinit, ok_bind]
  simp only [hvotes, ok_bind]

/-! ### What the loops send -/

/-- A transaction is sent, if there is such an account, its number has a successor and there is
room for it. -/
theorem exists_send {i : ℕ} (payload : Payload) (hi : i < accounts.length)
    (hfit : ∀ s ∈ accounts, s + 1 < 2 ^ 64) (hcap : txns.length < env.capacity) :
    ∃ s ∈ accounts, send env i payload accounts txns =
      .ok (accounts.set i (s + 1), txns ++ [⟨i, payload, s, 100⟩]) := by
  have hs := List.getElem_mem hi
  have hnext : faultAs Panic.overflow (addU env.overflow 64 accounts[i] 1) =
      .ok (accounts[i] + 1) := faultAs_eq_ok.mpr (addU_of_lt (hfit _ hs))
  refine ⟨accounts[i], hs, ?_⟩
  rw [send, account_eq_ok.mpr (List.getElem?_eq_getElem hi), ok_bind, hnext, ok_bind,
    push_eq_ok.mpr ⟨hcap, rfl⟩, ok_bind]

/-- A loop ends, if this holds for all its transactions. -/
theorem exists_sendAll (env : Env S) {m : ℕ} (steps : List (ℕ × Payload))
    (txns : List SignedTransaction)
    (hsender : ∀ step ∈ steps, step.1 < accounts.length) (hfit : ∀ s ∈ accounts, s < m)
    (hm : m + steps.length ≤ 2 ^ 64) (hcap : txns.length + steps.length ≤ env.capacity) :
    ∃ accounts' txns', sendAll env (steps.map .ok) accounts txns = .ok (accounts', txns') ∧
      accounts'.length = accounts.length ∧ ∀ s ∈ accounts', s < m + steps.length := by
  induction steps generalizing accounts txns m with
  | nil => exact ⟨accounts, txns, rfl, rfl, hfit⟩
  | cons step steps ih =>
    obtain ⟨i, payload⟩ := step
    rw [List.length_cons] at hm hcap
    have hi : i < accounts.length := hsender (i, payload) List.mem_cons_self
    have hnext : ∀ s ∈ accounts, s + 1 < 2 ^ 64 := by
      intro s hs
      have := hfit s hs
      omega
    have hroom : txns.length < env.capacity := by omega
    obtain ⟨s, hs, hsend⟩ := exists_send payload hi hnext hroom
    have hfit₁ : ∀ s' ∈ accounts.set i (s + 1), s' < m + 1 := by
      intro s' hs'
      rcases List.mem_or_eq_of_mem_set hs' with hs' | rfl
      · exact Nat.lt_succ_of_lt (hfit s' hs')
      · exact Nat.succ_lt_succ (hfit s hs)
    have hsender₁ : ∀ step ∈ steps, step.1 < (accounts.set i (s + 1)).length := by
      intro step hstep
      rw [List.length_set]
      exact hsender step (List.mem_cons_of_mem _ hstep)
    have hcap₁ : (txns ++ [(⟨i, payload, s, 100⟩ : SignedTransaction)]).length + steps.length ≤
        env.capacity := by
      rw [List.length_append, List.length_singleton]
      omega
    obtain ⟨accounts', txns', h, hlen, hfit'⟩ := ih _ hsender₁ hfit₁ (by omega) hcap₁
    refine ⟨accounts', txns', ?_, hlen.trans List.length_set, fun s' hs' => ?_⟩
    · rw [List.map_cons, sendAll, ok_bind]
      simp only [hsend, ok_bind, h]
    · have := hfit' s' hs'
      rw [List.length_cons]
      omega

/-! ### Routing -/

/-- The forum of a vote. -/
def SignedTransaction.forum? (txn : SignedTransaction) : Option ℕ :=
  match txn.payload with
  | .ballotVote forum _ => some forum
  | _ => none

/-- The account that is drawn for vote `k`. -/
def voter (rand : ℕ → ℕ → ℕ) (shardNum accNums k : ℕ) : ℕ :=
  shardNum + rand k 1 % (accNums - shardNum)

variable (env) in
/-- What the two blocks should be. -/
structure Routed (rand : ℕ → ℕ → ℕ) (transactionNum shardNum accNums : ℕ)
    (initialized votes : List SignedTransaction) : Prop where
  /-- The first accounts initialize a forum each. -/
  forums_eq : initialized.map SignedTransaction.step =
    (List.range shardNum).map fun i => (i, .ballotInitialize proposals)
  /-- The votes are those of the accounts that were drawn. -/
  voters_eq : votes.map SignedTransaction.sender =
    (List.range transactionNum).map (voter rand shardNum accNums)
  /-- The forum of a vote is the last byte of the voter's address modulo the number of forums. -/
  forum_eq : ∀ txn ∈ votes, txn.forum? = some (env.lastByte txn.sender % shardNum)
  /-- It has been initialized. -/
  forum_mem : ∀ txn ∈ votes, ∀ forum, txn.forum? = some forum →
    forum ∈ initialized.map SignedTransaction.sender
  /-- The votes of one account go to the same forum. -/
  forum_unique : ∀ txn ∈ votes, ∀ txn' ∈ votes, txn.sender = txn'.sender →
    txn.forum? = txn'.forum?

/-- The blocks are built without a panic and are as they should be, and the workload is what the VM
makes of them. -/
def RoutesVotes (env : Env S) (rand : ℕ → ℕ → ℕ) (transactionNum shardNum : ℕ)
    (sim : Similator S) : Prop :=
  ∃ initialized votes accounts,
    buildBallotSharding env rand transactionNum shardNum sim.accounts =
      .ok (initialized, votes, accounts) ∧
    runBallotSharding env rand transactionNum shardNum sim = (do
      let stateView ← executeAndApplyTransactions env initialized sim.stateView
      let _ ← executeBlockstmBenchmark env true true env.numCpus none votes stateView
      .ok ⟨initialized, votes, ⟨accounts, stateView⟩⟩) ∧
    Routed env rand transactionNum shardNum sim.accounts.length initialized votes

/-- The cast of the number of forums changes nothing for this account. -/
def CastHarmless (env : Env S) (shardNum account : ℕ) : Prop :=
  shardNum < 2 ^ 8 ∨ env.lastByte account < shardNum % 2 ^ 8

instance (env : Env S) (shardNum account : ℕ) : Decidable (CastHarmless env shardNum account) :=
  inferInstanceAs (Decidable (_ ∨ _))

/-- The cast changes nothing exactly if it leaves the remainder alone. -/
theorem castHarmless_iff {account : ℕ} (hpos : 0 < shardNum) :
    CastHarmless env shardNum account ↔ shardNum % 2 ^ 8 ≠ 0 ∧
      env.lastByte account % (shardNum % 2 ^ 8) = env.lastByte account % shardNum := by
  have hbyte := env.lastByte_lt account
  rcases Nat.lt_or_ge shardNum (2 ^ 8) with hlt | hge
  · rw [Nat.mod_eq_of_lt hlt]
    exact iff_of_true (.inl hlt) ⟨hpos.ne', rfl⟩
  · rw [Nat.mod_eq_of_lt (hbyte.trans_le hge), CastHarmless]
    constructor
    · rintro (hlt | hlt)
      · omega
      · exact ⟨by omega, Nat.mod_eq_of_lt hlt⟩
    · rintro ⟨hne, heq⟩
      exact .inr (heq ▸ Nat.mod_lt _ (Nat.pos_of_ne_zero hne))

/-- Vote `k`, with a modulus that is not zero. -/
def vote (env : Env S) (rand : ℕ → ℕ → ℕ) (shardNum accNums k : ℕ) : ℕ × Payload :=
  (voter rand shardNum accNums k,
    .ballotVote (env.lastByte (voter rand shardNum accNums k) % (shardNum % 2 ^ 8)) (rand k 0 % 3))

/-- The transaction of a vote. -/
theorem forum?_of_vote {accNums k : ℕ} {txn : SignedTransaction}
    (hstep : vote env rand shardNum accNums k = txn.step) :
    voter rand shardNum accNums k = txn.sender ∧
      txn.forum? = some (env.lastByte txn.sender % (shardNum % 2 ^ 8)) := by
  obtain ⟨hsender, hpayload⟩ := Prod.ext_iff.mp hstep
  have hsender : voter rand shardNum accNums k = txn.sender := hsender
  have hpayload : (vote env rand shardNum accNums k).2 = txn.payload := hpayload
  refine ⟨hsender, ?_⟩
  rw [SignedTransaction.forum?, ← hpayload, ← hsender]
  rfl

/-- The second loop, with a modulus that is not zero. -/
theorem voteSteps_eq {accNums : ℕ} (hlt : shardNum < accNums)
    (hne : ∀ k < transactionNum, shardNum % 2 ^ 8 ≠ 0) :
    voteSteps env rand transactionNum shardNum accNums =
      ((List.range transactionNum).map (vote env rand shardNum accNums)).map .ok := by
  rw [voteSteps, List.map_map]
  refine List.map_congr_left fun k hk => ?_
  have hproposal : genRange 0 3 (rand k 0) = .ok (rand k 0 % 3) := by
    rw [genRange, if_pos (by decide), Nat.zero_add, Nat.sub_zero]
  have hsender : genRange 0 (accNums - shardNum) (rand k 1) =
      .ok (rand k 1 % (accNums - shardNum)) := by
    rw [genRange, if_pos (by omega), Nat.zero_add, Nat.sub_zero]
  rw [hproposal, ok_bind, hsender, ok_bind]
  exact if_neg (hne k (List.mem_range.mp hk))

/-- A step that does not panic has a modulus that is not zero. -/
theorem ne_zero_of_mem_voteSteps {accNums : ℕ} {step : ℕ × Payload}
    (hmem : .ok step ∈ voteSteps env rand transactionNum shardNum accNums) :
    shardNum % 2 ^ 8 ≠ 0 := by
  intro hzero
  obtain ⟨k, -, hk⟩ := List.mem_map.mp hmem
  obtain ⟨proposalIndex, -, hk⟩ := exists_of_bind_eq_ok hk
  obtain ⟨senderIndex, -, hk⟩ := exists_of_bind_eq_ok hk
  rw [if_pos hzero] at hk
  cases hk

/-- Steps that do not panic are what they have decided. -/
theorem map_ok_inj {l l' : List (ℕ × Payload)}
    (h : (l.map .ok : List (Except Panic (ℕ × Payload))) = l'.map .ok) : l = l' :=
  List.map_injective_iff.mpr (fun _ _ => Except.ok.inj) h

theorem forumSteps_eq (shardNum : ℕ) : forumSteps shardNum =
    ((List.range shardNum).map fun i => (i, .ballotInitialize proposals)).map .ok := by
  rw [forumSteps, List.map_map]
  rfl

/-- The blocks that were built are what the loops have sent. -/
theorem steps_of_build
    (h : buildBallotSharding env rand transactionNum shardNum accounts =
      .ok (initialized, votes, accounts')) :
    (initialized.map SignedTransaction.step =
        (List.range shardNum).map fun i => (i, .ballotInitialize proposals)) ∧
      voteSteps env rand transactionNum shardNum accounts.length =
        (votes.map SignedTransaction.step).map .ok ∧
      initialized.length ≤ env.capacity ∧ votes.length ≤ env.capacity := by
  obtain ⟨_, -, h⟩ := exists_of_bind_eq_ok h
  obtain ⟨⟨accounts₁, initialized₁⟩, hinit, h⟩ := exists_of_bind_eq_ok h
  obtain ⟨⟨accounts₂, votes₂⟩, hvotes, h⟩ := exists_of_bind_eq_ok h
  cases h
  obtain ⟨_, rfl, hforums⟩ := steps_of_sendAll hinit
  obtain ⟨_, rfl, hsteps⟩ := steps_of_sendAll hvotes
  rw [forumSteps_eq] at hforums
  exact ⟨(map_ok_inj hforums).symm, hsteps, (sendAll_spec hinit (Nat.zero_le _)).2.1,
    (sendAll_spec hvotes (Nat.zero_le _)).2.1⟩

/-- Where the votes are routed, they fit, and the cast was harmless for every voter. -/
theorem RoutesVotes.harmless {sim : Similator S} (hpos : 1 ≤ shardNum)
    (hlt : shardNum < sim.accounts.length)
    (h : RoutesVotes env rand transactionNum shardNum sim) :
    shardNum ≤ env.capacity ∧ transactionNum ≤ env.capacity ∧
      ∀ k < transactionNum,
        CastHarmless env shardNum (voter rand shardNum sim.accounts.length k) := by
  obtain ⟨initialized, votes, accounts, hbuild, -, hrouted⟩ := h
  obtain ⟨-, hsteps, hinit, hvotes⟩ := steps_of_build hbuild
  have hlen := congrArg List.length hrouted.forums_eq
  have hlen' := congrArg List.length hrouted.voters_eq
  simp only [List.length_map, List.length_range] at hlen hlen'
  refine ⟨hlen ▸ hinit, hlen' ▸ hvotes, fun k hk => ?_⟩
  have hkvotes : k < votes.length := hlen' ▸ hk
  have hmem := List.getElem_mem hkvotes
  have hne : shardNum % 2 ^ 8 ≠ 0 := by
    have hok : .ok votes[k].step ∈
        voteSteps env rand transactionNum shardNum sim.accounts.length := by
      rw [hsteps]
      exact List.mem_map_of_mem (List.mem_map_of_mem hmem)
    exact ne_zero_of_mem_voteSteps hok
  -- The transaction that was sent for vote `k` is the one that the loop decided about.
  rw [voteSteps_eq hlt fun _ _ => hne] at hsteps
  have hstep : vote env rand shardNum sim.accounts.length k = votes[k].step := by
    have hget := congrArg (fun l => l[k]?) (map_ok_inj hsteps)
    simpa [hk, hkvotes] using hget
  obtain ⟨hsender, hforum⟩ := forum?_of_vote hstep
  rw [hsender]
  have hrest := Option.some_inj.mp (hforum.symm.trans (hrouted.forum_eq _ hmem))
  exact (castHarmless_iff hpos).mpr ⟨hne, hrest⟩

/-- The blocks are built, if everything fits and no vote is divided by zero. -/
theorem exists_build (rand : ℕ → ℕ → ℕ) {u : Universe} (hlt : shardNum < u.sequenceNumbers.length)
    (hshards : shardNum ≤ env.capacity) (hfits : transactionNum ≤ env.capacity)
    (hne : ∀ k < transactionNum, shardNum % 2 ^ 8 ≠ 0) :
    ∃ initialized votes accounts, buildBallotSharding env rand transactionNum shardNum
      (withAccountNums env u).accounts = .ok (initialized, votes, accounts) := by
  have hcap := env.capacity_le
  -- The numbers are below `2 ^ 63`, so that the loops do not come to `2 ^ 64`.
  obtain ⟨accounts₁, initialized, hinit, hlen, hfit⟩ := exists_sendAll env
    ((List.range shardNum).map fun i => (i, .ballotInitialize proposals)) []
    (by simp only [List.mem_map, List.mem_range]; rintro _ ⟨i, hi, rfl⟩; exact hi.trans hlt)
    u.lt (by simp only [List.length_map, List.length_range]; omega)
    (by simpa using hshards)
  simp only [List.length_map, List.length_range] at hfit
  obtain ⟨accounts₂, votes, hvotes, -⟩ := exists_sendAll env
    ((List.range transactionNum).map (vote env rand shardNum u.sequenceNumbers.length)) []
    (by
      simp only [List.mem_map, List.mem_range]
      rintro _ ⟨k, -, rfl⟩
      have := Nat.mod_lt (rand k 1) (show 0 < u.sequenceNumbers.length - shardNum by omega)
      rw [hlen, vote, voter]
      dsimp only
      omega)
    hfit (by simp only [List.length_map, List.length_range]; omega)
    (by simpa using hfits)
  refine ⟨initialized, votes, accounts₂, ?_⟩
  have hsplit : splitAtMut u.sequenceNumbers shardNum = .ok () := if_pos hlt.le
  rw [withAccountNums, buildBallotSharding, hsplit, ok_bind, forumSteps_eq, hinit, ok_bind]
  simp only [voteSteps_eq hlt hne, hvotes, ok_bind]

/-- Blocks that were built are routed, if the cast was harmless. -/
theorem Routed.of_build (hlt : shardNum < accounts.length)
    (h : buildBallotSharding env rand transactionNum shardNum accounts =
      .ok (initialized, votes, accounts')) (hpos : 1 ≤ shardNum)
    (hcast : ∀ k < transactionNum,
      CastHarmless env shardNum (voter rand shardNum accounts.length k)) :
    Routed env rand transactionNum shardNum accounts.length initialized votes := by
  obtain ⟨hforums, hsteps, -, -⟩ := steps_of_build h
  rw [voteSteps_eq hlt fun k hk => ((castHarmless_iff hpos).mp (hcast k hk)).1] at hsteps
  have hvotes := map_ok_inj hsteps
  have hforum : ∀ txn ∈ votes, txn.forum? = some (env.lastByte txn.sender % shardNum) := by
    intro txn htxn
    have hmem : txn.step ∈ (List.range transactionNum).map
        (vote env rand shardNum accounts.length) := hvotes ▸ List.mem_map_of_mem htxn
    obtain ⟨k, hk, hstep⟩ := List.mem_map.mp hmem
    obtain ⟨hsender, hforum⟩ := forum?_of_vote hstep
    have hrest := ((castHarmless_iff hpos).mp (hcast k (List.mem_range.mp hk))).2
    rw [hforum, ← hsender, hrest]
  refine ⟨hforums, ?_, hforum, fun txn htxn forum hf => ?_, fun txn htxn txn' htxn' heq => ?_⟩
  · have hsenders := congrArg (List.map Prod.fst) hvotes
    rw [List.map_map, List.map_map] at hsenders
    exact hsenders.symm
  · have hsenders := congrArg (List.map Prod.fst) hforums
    rw [List.map_map, List.map_map] at hsenders
    obtain rfl := Option.some_inj.mp ((hforum txn htxn).symm.trans hf)
    have hlt : env.lastByte txn.sender % shardNum < shardNum := Nat.mod_lt _ hpos
    exact hsenders ▸ List.mem_map.mpr ⟨_, List.mem_range.mpr hlt, rfl⟩
  · rw [hforum txn htxn, hforum txn' htxn', heq]

/-- **When every vote goes to its forum.** For any number of forums that leaves a voter, any
universe and whatever is drawn: the blocks are built without a panic, the first accounts initialize
the forums, and every vote goes to the forum that is the last byte of the voter's address modulo
their number, if and only if the blocks fit into a `Vec` and the cast of the number of forums to a
byte is harmless for every voter that is drawn. So it is too for the blocks of a workload that has
finished. The cast is harmless for everybody below `256` forums. -/
theorem ballot_routing_iff (env : Env S) (u : Universe) (rand : ℕ → ℕ → ℕ)
    (transactionNum shardNum : ℕ) (hpos : 1 ≤ shardNum)
    (hlt : shardNum < u.sequenceNumbers.length) :
    (RoutesVotes env rand transactionNum shardNum (withAccountNums env u) ↔
      shardNum ≤ env.capacity ∧ transactionNum ≤ env.capacity ∧
        ∀ k < transactionNum,
          CastHarmless env shardNum (voter rand shardNum u.sequenceNumbers.length k)) ∧
    ∀ r, runBallotSharding env rand transactionNum shardNum (withAccountNums env u) = .ok r →
      (Routed env rand transactionNum shardNum u.sequenceNumbers.length r.initialized r.benchmark ↔
        ∀ k < transactionNum,
          CastHarmless env shardNum (voter rand shardNum u.sequenceNumbers.length k)) := by
  refine ⟨⟨RoutesVotes.harmless hpos hlt, ?_⟩, fun r hr => ?_⟩
  · rintro ⟨hshards, hfits, hcast⟩
    obtain ⟨initialized, votes, accounts, hbuild⟩ := exists_build rand hlt hshards hfits
      fun k hk => ((castHarmless_iff hpos).mp (hcast k hk)).1
    exact ⟨initialized, votes, accounts, hbuild, runBallotSharding_of_build hbuild,
      .of_build hlt hbuild hpos hcast⟩
  · have hbuild := build_of_runBallotSharding hr
    refine ⟨fun hrouted => ?_, .of_build hlt hbuild hpos⟩
    exact (RoutesVotes.harmless hpos hlt
      ⟨_, _, _, hbuild, runBallotSharding_of_build hbuild, hrouted⟩).2.2

/-- A universe of accounts that have not sent anything. -/
def freshAccounts (n : ℕ) : Universe where
  sequenceNumbers := List.replicate n 0
  lt s hs := by
    rw [List.eq_of_mem_replicate hs]
    exact Nat.two_pow_pos 63

theorem length_freshAccounts (env : Env S) (n : ℕ) :
    (withAccountNums env (freshAccounts n)).accounts.length = n := List.length_replicate

/-- With `256` forums the modulus is zero. With `258` it is two, and a voter whose address ends in
the byte `3` goes to forum `1`. -/
theorem votes_misrouted :
    ¬ RoutesVotes countingEnv (fun _ _ => 1) 1 256
      (withAccountNums countingEnv (freshAccounts 258)) ∧
    ¬ RoutesVotes countingEnv (fun _ _ => 1) 1 258
      (withAccountNums countingEnv (freshAccounts 260)) := by
  refine ⟨fun h => ?_, fun h => ?_⟩
  all_goals
    obtain ⟨-, -, hcast⟩ := h.harmless (by decide) (by rw [length_freshAccounts]; decide)
    rw [length_freshAccounts] at hcast
    exact absurd (hcast 0 Nat.one_pos) (by decide)

/-- Two votes in two forums. -/
theorem ballot_routing_two : RoutesVotes countingEnv (fun k _ => k) 2 2
    (withAccountNums countingEnv threeAccounts) :=
  (ballot_routing_iff countingEnv threeAccounts (fun k _ => k) 2 2 (by decide) (by decide)).1.mpr
    ⟨by decide, by decide, fun _ _ => .inl (by decide)⟩

end Simulator

end Aptos

end RelayContracts
