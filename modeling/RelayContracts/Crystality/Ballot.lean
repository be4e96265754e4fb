import RelayContracts.Preda.BallotSession

/-!
# The Crystality Ballot contract

The contract of `Ballot.sol` among the Crystality contracts, a translation of the PREDA ballot. The
array `votedWeights` exists once per shard and everything else once; a call to `address(888)` is a
relay to the global scope, one to `address(777)` a relay to every shard. The structs and the loops
of `_finalize` are those of the PREDA contract, so its `Proposal`, `addShardVotes` and `topVoted`
serve here too; the field called `case` there is called `caseId` here.

What the translation has lost is in `vote`: it adds 1 to the entry of the proposal, and asks neither
for the case nor whether the address has voted. `counts_same_iff` says for which votes this makes no
difference.

## What is left out

`weight` and `voted_case` are read by no function and written by none, since the body of `set` is
empty.

## Values

`_finalize` takes a `uint64[]` and is sent a `uint256[]`, so decoding its argument fails at an entry
that is not a `uint64`. `controller` is assigned nowhere; `none` stands for the zero address it
holds.
-/

namespace RelayContracts

namespace Crystality

namespace Ballot

open RelayMachine
open Preda (Chain addAt)
open Preda.Ballot (Proposal BallotResult Vote addShardVotes topVoted shardShare totalAt tally
  shardTally)

/-- The state of the contract, all scopes together, on `2 ^ k` shards. -/
structure State (A : Type) (k : ℕ) where
  /-- `address controller`. -/
  controller : Option A
  /-- `uint32 current_case`. -/
  currentCase : ℕ
  /-- `Proposal[] proposals`. -/
  proposals : List Proposal
  /-- `BallotResult last_result`. -/
  lastResult : BallotResult
  /-- `uint32 shardGatherRatio`. -/
  shardGatherRatio : ℕ
  /-- `uint256[] votedWeights`, of each shard. -/
  votedWeights : Fin (2 ^ k) → List ℕ

/-- The public functions. The `_scope` of `init` and `finalize` is not read. -/
inductive Call (A : Type) (k : ℕ) where
  /-- `set(_scope, _weight, _voted_case)`. -/
  | set (scope : A) (weight votedCase : ℕ)
  /-- `init(_scope, names)`. -/
  | init (msgSender : A) (names : List String)
  /-- `_init(names)`. -/
  | _init (names : List String)
  /-- `_initShardVotedWeights()`, at a shard. -/
  | _initShardVotedWeights (t : Fin (2 ^ k))
  /-- `vote(_scope, proposal_index, case_num)`. -/
  | vote (scope : A) (proposalIndex caseNum : ℕ)
  /-- `finalize(_scope)`. -/
  | finalize (msgSender : A)
  /-- `_startFinalize()`. -/
  | _startFinalize
  /-- `_shardsFinalize()`, at a shard. -/
  | _shardsFinalize (t : Fin (2 ^ k))
  /-- `_finalize(shardVotes)`. -/
  | _finalize (shardVotes : List ℕ)
  deriving DecidableEq, Repr

/-- The relays. -/
inductive Relay (k : ℕ) where
  /-- `address(888).call(_init(names))`. -/
  | _init (names : List String)
  /-- `address(777).call(_initShardVotedWeights())`, at one shard. -/
  | _initShardVotedWeights (t : Fin (2 ^ k))
  /-- `address(888).call(_startFinalize())`. -/
  | _startFinalize
  /-- `address(777).call(_shardsFinalize())`, at one shard. -/
  | _shardsFinalize (t : Fin (2 ^ k))
  /-- `address(888).call(_finalize(votedWeights))`. -/
  | _finalize (shardVotes : List ℕ)
  deriving DecidableEq, Repr

variable {A : Type} {k : ℕ}

/-- The state a deployment starts from. -/
def empty (A : Type) (k : ℕ) : State A k := ⟨none, 0, [], ⟨"", 0⟩, 0, fun _ => []⟩

/-! ### The functions -/

/-- `_init(names)`. -/
def _init (names : List String) (s : State A k) :
    Except Fault (Effect (State A k) (Relay k) (Option Bool)) := do
  -- the loop pushes one proposal per name
  let proposals := names.foldl (fun ps name => ps ++ [⟨name, 0⟩]) s.proposals
  let currentCase ← addU .trap 32 s.currentCase 1
  .ok ⟨{ s with proposals, currentCase, lastResult := ⟨"", 0⟩ }, none,
    (List.finRange (2 ^ k)).map ._initShardVotedWeights⟩

/-- `_initShardVotedWeights()`, at the shard `t`: the loop pushes zeros until there is one entry per
proposal. -/
def _initShardVotedWeights (t : Fin (2 ^ k)) (s : State A k) :
    Except Fault (Effect (State A k) (Relay k) (Option Bool)) :=
  .ok ⟨{ s with
    votedWeights := Function.update s.votedWeights t (s.votedWeights t ++
      List.replicate (s.proposals.length - (s.votedWeights t).length) 0) }, none, []⟩

/-- `vote(_scope, proposal_index, case_num)`, at the shard of its scope. -/
def vote (X : Chain A) (scope : A) (proposalIndex _caseNum : ℕ) (s : State A X.shardOrder) :
    Except Fault (Effect (State A X.shardOrder) (Relay X.shardOrder) (Option Bool)) := do
  let tallied ← addAt .trap 256 (s.votedWeights (X.shardOf scope)) proposalIndex 1
  .ok ⟨{ s with votedWeights := Function.update s.votedWeights (X.shardOf scope) tallied },
    some true, []⟩

/-- `shardGather_reset()`. -/
def shardGatherReset (s : State A k) : State A k := { s with shardGatherRatio := 0 }

/-- `shardGather_gather()`: the new ratio, and whether it is complete. -/
def shardGatherGather (s : State A k) : Except Fault (Bool × State A k) := do
  let ratio ← addU .trap 32 s.shardGatherRatio (shardShare k)
  .ok (ratio == 0x80000000, { s with shardGatherRatio := ratio })

/-- `_startFinalize()`. -/
def _startFinalize (s : State A k) : Except Fault (Effect (State A k) (Relay k) (Option Bool)) :=
  .ok ⟨shardGatherReset s, none, (List.finRange (2 ^ k)).map ._shardsFinalize⟩

/-- `_shardsFinalize()`, at the shard `t`. -/
def _shardsFinalize (t : Fin (2 ^ k)) (s : State A k) :
    Except Fault (Effect (State A k) (Relay k) (Option Bool)) :=
  .ok ⟨s, none, [._finalize (s.votedWeights t)]⟩

/-- `_finalize(shardVotes)`. -/
def _finalize (shardVotes : List ℕ) (s : State A k) :
    Except Fault (Effect (State A k) (Relay k) (Option Bool)) :=
  -- decoding a `uint64[]` checks every entry
  if ∀ v ∈ shardVotes, v < 2 ^ 64 then do
    let proposals ← addShardVotes .trap s.proposals shardVotes
    let (completed, s) ← shardGatherGather { s with proposals }
    if completed then
      .ok ⟨{ s with lastResult := ⟨topVoted s.proposals s.lastResult.topVoted, s.currentCase⟩ },
        none, []⟩
    else .ok ⟨s, none, []⟩
  else .error .overflow

variable [DecidableEq A]

/-- `init(_scope, names)`. -/
def init (msgSender : A) (names : List String) (s : State A k) :
    Except Fault (Effect (State A k) (Relay k) (Option Bool)) :=
  if s.controller = some msgSender then
    if s.currentCase ≤ s.lastResult.caseNum then .ok ⟨s, none, [._init names]⟩
    else .error .assertion
  else .error .assertion

/-- `finalize(_scope)`. -/
def finalize (msgSender : A) (s : State A k) :
    Except Fault (Effect (State A k) (Relay k) (Option Bool)) :=
  if s.controller = some msgSender then
    if s.lastResult.caseNum < s.currentCase then .ok ⟨s, none, [._startFinalize]⟩
    else .error .assertion
  else .error .assertion

/-- The contract as a relay machine. -/
def machine (X : Chain A) : Machine (State A X.shardOrder) (Call A X.shardOrder)
    (Relay X.shardOrder) (Option Bool) Fault where
  call
    | .set _ _ _ => fun s => .ok ⟨s, none, []⟩
    | .init msgSender names => init msgSender names
    | ._init names => _init names
    | ._initShardVotedWeights t => _initShardVotedWeights t
    | .vote scope proposalIndex caseNum => vote X scope proposalIndex caseNum
    | .finalize msgSender => finalize msgSender
    | ._startFinalize => _startFinalize
    | ._shardsFinalize t => _shardsFinalize t
    | ._finalize shardVotes => _finalize shardVotes
  relay
    | ._init names => _init names
    | ._initShardVotedWeights t => _initShardVotedWeights t
    | ._startFinalize => _startFinalize
    | ._shardsFinalize t => _shardsFinalize t
    | ._finalize shardVotes => _finalize shardVotes

/-- The events of a run of the Ballot, latest first. -/
abbrev History (A : Type) (k : ℕ) := List (Event (Call A k) (Relay k) (Option Bool) Fault)

/-! ### Sessions -/

/-- The call that casts a vote. -/
def castVote (v : Vote A) : Call A k := .vote v.voter v.proposalIndex v.caseNum

/-- The calls of a session, latest first: `_init`, the votes `vs`, and `_startFinalize`. -/
def sessionCalls (names : List String) (vs : List (Vote A)) : List (Call A k) :=
  ._startFinalize :: (vs.map castVote ++ [._init names])

/-- Votes and finalizations are called with no relay of `_init` in flight. -/
def AfterInit (_ : History A k) (c : Config (State A k) (Relay k)) :
    Event (Call A k) (Relay k) (Option Bool) Fault → Prop
  | .call (.vote _ _ _) _ | .call ._startFinalize _ =>
    ∀ t, ._initShardVotedWeights t ∉ c.inFlight
  | _ => True

instance (h : History A k) (c : Config (State A k) (Relay k))
    (e : Event (Call A k) (Relay k) (Option Bool) Fault) : Decidable (AfterInit h c e) :=
  match e with
  | .call k _ =>
    match k with
    | .vote _ _ _ | ._startFinalize =>
      inferInstanceAs (Decidable (∀ t, ._initShardVotedWeights t ∉ c.inFlight))
    | .set _ _ _ | .init _ _ | ._init _ | ._initShardVotedWeights _ | .finalize _
    | ._shardsFinalize _ | ._finalize _ => isTrue trivial
  | .deliver _ _ => isTrue trivial

/-- A session, with every relay delivered in the end. -/
structure Session (X : Chain A) (names : List String) (vs : List (Vote A))
    (h : History A X.shardOrder) (c : Config (State A X.shardOrder) (Relay X.shardOrder)) :
    Prop where
  /-- It is a run from a deployment. -/
  run : (machine X).Run AfterInit ⟨empty A X.shardOrder, 0⟩ h c
  /-- These are its calls. -/
  calls_eq : calls h = sessionCalls names vs
  /-- Nothing is left in flight. -/
  quiet : c.inFlight = 0

/-! ### Casting votes -/

/-- The votes of a list for one of `n` proposals. -/
def inRange (n : ℕ) (vs : List (Vote A)) : List (Vote A) := vs.filter fun v => v.proposalIndex < n

omit [DecidableEq A] in
theorem tally_inRange_le (n : ℕ) (vs : List (Vote A)) (i : ℕ) :
    tally (fun _ => 1) i (inRange n vs) ≤ vs.length := by
  rw [← Preda.Ballot.weigh_one]
  exact (Preda.Ballot.tally_le _ i _).trans (Preda.Ballot.weigh_sublist _ _ List.filter_sublist)

/-- What `_init` and the votes `ws` of a session return, latest first. -/
def castOutcomes (names : List String) (ws : List (Vote A)) :
    List (Call A k × Except Fault (Option Bool)) :=
  ws.map (fun v => (castVote v,
    if v.proposalIndex < names.length then .ok (some true) else .error .outOfRange)) ++
    [(._init names, .ok none)]

/-- What is known while the votes `ws` have been cast. -/
structure Casting (X : Chain A) (names : List String) (ws : List (Vote A))
    (c : Config (State A X.shardOrder) (Relay X.shardOrder)) : Prop where
  /-- The totals are untouched. -/
  proposals : c.state.proposals = names.map fun name => ⟨name, 0⟩
  /-- All that is in flight is on its way to a shard that waits for it. -/
  inFlight : ∀ m ∈ c.inFlight, ∃ t, m = ._initShardVotedWeights t
  /-- A shard that does not wait has an entry per proposal. -/
  length : ∀ t, (c.state.votedWeights t).length = names.length ∨
    c.state.votedWeights t = [] ∧ ._initShardVotedWeights t ∈ c.inFlight
  /-- The entries count the votes in range. -/
  getD_eq : ∀ t i, (c.state.votedWeights t).getD i 0 =
    shardTally X (fun _ => 1) t i (inRange names.length ws)

section Runs

variable {X : Chain A} {names : List String} {vs ws : List (Vote A)}
  {c : Config (State A X.shardOrder) (Relay X.shardOrder)} {h : History A X.shardOrder}

theorem init_empty (X : Chain A) (names : List String) :
    ∃ eff, (machine X).call (._init names) (empty A X.shardOrder) = .ok eff ∧ eff.value = none ∧
      Casting X names [] ⟨eff.state, eff.relays⟩ := by
  refine ⟨_, rfl, rfl, ?_, ?_, fun t => .inr ⟨rfl, ?_⟩, fun _ _ => rfl⟩
  · exact (Preda.Ballot.foldl_push names []).trans (List.nil_append _)
  · simp
  · simp

omit [DecidableEq A] in
/-- With no relay of `_init` in flight, nothing is, and every shard is ready. -/
theorem Casting.ready (hc : Casting X names ws c)
    (hinit : ∀ t, ._initShardVotedWeights t ∉ c.inFlight) :
    c.inFlight = 0 ∧ ∀ t, (c.state.votedWeights t).length = names.length := by
  refine ⟨Multiset.eq_zero_of_forall_notMem fun m hm => ?_, fun t => ?_⟩
  · obtain ⟨t, rfl⟩ := hc.inFlight m hm
    exact hinit t hm
  · exact (hc.length t).resolve_right fun ht => hinit t ht.2

omit [DecidableEq A] in
/-- A shard is made ready. -/
theorem Casting.deliver {s : State A X.shardOrder} {t : Fin (2 ^ X.shardOrder)}
    {rest : Multiset (Relay X.shardOrder)}
    (hc : Casting X names ws ⟨s, ._initShardVotedWeights t ::ₘ rest⟩) :
    Casting X names ws ⟨{ s with
      votedWeights := Function.update s.votedWeights t (s.votedWeights t ++
        List.replicate (s.proposals.length - (s.votedWeights t).length) 0) }, rest⟩ := by
  have hlen : s.proposals.length = names.length := by rw [hc.proposals, List.length_map]
  have hle : (s.votedWeights t).length ≤ names.length := by
    rcases hc.length t with ht | ⟨ht, -⟩
    · exact ht.le
    · rw [show s.votedWeights t = [] from ht]
      exact Nat.zero_le _
  have hpad : s.votedWeights t ++
      List.replicate (s.proposals.length - (s.votedWeights t).length) 0 =
        Preda.setLength 0 names.length (s.votedWeights t) := by
    rw [Preda.setLength, List.take_of_length_le hle, hlen]
  rw [hpad]
  refine ⟨hc.proposals, fun m hm => hc.inFlight m (Multiset.mem_cons_of_mem hm), fun t' => ?_,
    fun t' i => ?_⟩
  · by_cases ht : t' = t
    · subst ht
      left
      simp
    · simp only [Function.update_of_ne ht]
      refine (hc.length t').imp_right ?_
      rintro ⟨hnil, hmem⟩
      exact ⟨hnil, (Multiset.mem_cons.mp hmem).resolve_left fun heq => ht (by cases heq; rfl)⟩
  · show (Function.update s.votedWeights t _ t').getD i 0 = _
    by_cases ht : t' = t
    · subst ht
      rw [Function.update_self, Preda.getD_setLength 0 hle]
      exact hc.getD_eq t' i
    · rw [Function.update_of_ne ht]
      exact hc.getD_eq t' i

/-- **A vote takes effect whenever its index is in range.** -/
theorem Casting.vote (hc : Casting X names ws c) (hlen : ws.length < 2 ^ 64)
    (hinit : ∀ t, ._initShardVotedWeights t ∉ c.inFlight) (v : Vote A)
    {r : Except Fault (Option Bool)} {c' : Config (State A X.shardOrder) (Relay X.shardOrder)}
    (hs : (machine X).Step c (.call (castVote v) r) c') :
    r = (if v.proposalIndex < names.length then .ok (some true) else .error .outOfRange) ∧
      Casting X names (v :: ws) c' := by
  obtain ⟨hq, hready⟩ := hc.ready hinit
  have hcall : (machine X).call (castVote v) c.state =
    Ballot.vote X v.voter v.proposalIndex v.caseNum c.state := rfl
  by_cases hi : v.proposalIndex < names.length
  · have hle : (c.state.votedWeights (X.shardOf v.voter)).getD v.proposalIndex 0 ≤ ws.length := by
      rw [hc.getD_eq]
      exact (Preda.Ballot.shardTally_le _ X _ _ _).trans (tally_inRange_le _ ws _)
    have hfit : (c.state.votedWeights (X.shardOf v.voter)).getD v.proposalIndex 0 + 1 < 2 ^ 256 :=
      by omega
    obtain ⟨tallied, hadd⟩ :=
      Preda.exists_addAt (p := .trap) (by rw [hready]; exact hi) hfit
    rw [Ballot.vote, hadd, ok_bind] at hcall
    obtain ⟨rfl, rfl⟩ := hs.of_call_ok hcall
    refine ⟨by rw [if_pos hi], hc.proposals, by simp [hq], fun t => .inl ?_, fun t i => ?_⟩
    · show (Function.update c.state.votedWeights _ tallied t).length = _
      by_cases ht : t = X.shardOf v.voter
      · rw [ht, Function.update_self, Preda.length_of_addAt hadd, hready]
      · rw [Function.update_of_ne ht, hready]
    · show (Function.update c.state.votedWeights _ tallied t).getD i 0 = _
      rw [inRange, List.filter_cons_of_pos (by simpa using hi), Preda.Ballot.shardTally_cons,
        ← inRange, ← hc.getD_eq]
      by_cases ht : t = X.shardOf v.voter
      · rw [ht, Function.update_self, Preda.getD_of_addAt hadd hfit, Nat.add_comm]
        simp only [true_and, eq_comm]
      · rw [Function.update_of_ne ht, if_neg fun hv => ht hv.1.symm, Nat.zero_add]
  · have hnone : addAt .trap 256 (c.state.votedWeights (X.shardOf v.voter)) v.proposalIndex 1 =
        .error .outOfRange := by
      rw [addAt, List.getElem?_eq_none (by rw [hready]; omega)]
    rw [Ballot.vote, hnone, error_bind] at hcall
    obtain ⟨rfl, rfl⟩ := hs.of_call_error hcall
    refine ⟨by rw [if_neg hi], hc.proposals, hc.inFlight, hc.length, ?_⟩
    rw [inRange, List.filter_cons_of_neg (by simpa using hi)]
    exact hc.getD_eq

/-- What `_init` and the votes of a session return, and what they leave. -/
theorem casting_of_run (hr : (machine X).Run AfterInit ⟨empty A X.shardOrder, 0⟩ h c)
    (hlen : ws.length < 2 ^ 64) (hcalls : calls h = ws.map castVote ++ [._init names]) :
    Casting X names ws c ∧ outcomes h = castOutcomes names ws := by
  induction hr generalizing ws with
  | nil => simp at hcalls
  | @step h c c' e hr hs hg ih =>
    cases e with
    | deliver m r =>
      obtain ⟨hc, hout⟩ := ih hlen hcalls
      refine ⟨?_, hout⟩
      cases hs with
      | @deliverOk _ rest eff hm hk =>
        obtain ⟨t, rfl⟩ := hc.inFlight m (hm ▸ Multiset.mem_cons_self m rest)
        cases hk
        obtain ⟨s, flight⟩ := c
        obtain rfl : flight = _ := hm
        simpa using hc.deliver
      | @deliverError _ rest f hm hk =>
        obtain ⟨t, rfl⟩ := hc.inFlight m (hm ▸ Multiset.mem_cons_self m rest)
        cases hk
    | call m r =>
      rw [outcomes_cons_call]
      cases ws with
      | nil =>
        obtain ⟨rfl, hnil⟩ := List.cons.inj hcalls
        obtain ⟨rfl, rfl⟩ := hr.eq_nil_of_calls hnil
        obtain ⟨eff, hk, hvalue, hc⟩ := init_empty X names
        obtain ⟨rfl, rfl⟩ := hs.of_call_ok hk
        rw [hvalue]
        exact ⟨by simpa using hc, rfl⟩
      | cons v ws =>
        obtain ⟨rfl, hbefore⟩ := List.cons.inj hcalls
        have hlen : ws.length < 2 ^ 64 := (Nat.lt_succ_self _).trans hlen
        obtain ⟨hc, hout⟩ := ih hlen hbefore
        obtain ⟨rfl, hc'⟩ := hc.vote hlen hg v hs
        exact ⟨hc', by rw [hout]; rfl⟩

/-! ### Finalizing -/

/-- What a relay of a finalization has for the total at an index, when the shards hold `vw`. -/
def payload (vw : Fin (2 ^ k) → List ℕ) (i : ℕ) : Relay k → ℕ
  | ._shardsFinalize t => (vw t).getD i 0
  | ._finalize votes => votes.getD i 0
  | _ => 0

/-- What a relay of a finalization has for the gather ratio. -/
def share : Relay k → ℕ
  | ._shardsFinalize _ | ._finalize _ => shardShare k
  | _ => 0

/-- What is known while the shards' arrays `vw` are gathered. -/
structure Closing (names : List String) (vw : Fin (2 ^ k) → List ℕ)
    (c : Config (State A k) (Relay k)) : Prop where
  /-- The arrays stay as they are. -/
  votedWeights : c.state.votedWeights = vw
  /-- So do the names. -/
  map_name_eq : c.state.proposals.map Proposal.name = names
  /-- What the totals lack is in flight. -/
  totals : ∀ i, totalAt c.state.proposals i + c.carried (payload vw i) = ∑ t, (vw t).getD i 0
  /-- So is what the ratio lacks. -/
  ratio : c.state.shardGatherRatio + c.carried share = 2 ^ k * shardShare k
  /-- Nothing else is in flight. -/
  inFlight : ∀ m ∈ c.inFlight, ∃ t, m = ._shardsFinalize t ∨ m = ._finalize (vw t)

omit [DecidableEq A] in
/-- The start of a finalization. -/
theorem closing_of_casting (hc : Casting X names ws c) (hq : c.inFlight = 0) :
    Closing names c.state.votedWeights ⟨shardGatherReset c.state,
      c.inFlight + ((List.finRange (2 ^ X.shardOrder)).map ._shardsFinalize :
        List (Relay X.shardOrder))⟩ := by
  rw [hq, zero_add]
  refine ⟨rfl, ?_, fun i => ?_, ?_, fun m hm => ?_⟩
  · rw [shardGatherReset, hc.proposals, List.map_map]
    exact List.map_id names
  · rw [shardGatherReset, hc.proposals, ← List.nil_append (names.map _),
      Preda.Ballot.totalAt_append_zero, Preda.Ballot.totalAt_nil, Nat.zero_add, Config.carried,
      Multiset.map_coe, Multiset.sum_coe, List.map_map, Fin.sum_univ_def]
    rfl
  · rw [Config.carried, Multiset.map_coe, Multiset.sum_coe, List.map_map]
    simp [shardGatherReset, share, Function.comp_def]
  · obtain ⟨t, -, rfl⟩ := List.mem_map.mp (Multiset.mem_coe.mp hm)
    exact ⟨t, .inl rfl⟩

omit [DecidableEq A] in
/-- `_finalize` fails only where decoding or one of its additions does. -/
theorem exists_finalize {votes : List ℕ} {s : State A k} {ps : List Proposal} {r : ℕ}
    (hvotes : ∀ v ∈ votes, v < 2 ^ 64) (hps : addShardVotes .trap s.proposals votes = .ok ps)
    (hr : addU .trap 32 s.shardGatherRatio (shardShare k) = .ok r) :
    ∃ res, _finalize votes s = .ok ⟨{ s with
      proposals := ps, shardGatherRatio := r, lastResult := res }, none, []⟩ := by
  rw [_finalize, if_pos hvotes, hps]
  simp only [shardGatherGather, hr, ok_bind]
  split
  · exact ⟨_, rfl⟩
  · exact ⟨_, rfl⟩

section Gather

variable {vw : Fin (2 ^ k) → List ℕ} {s : State A k} {rest : Multiset (Relay k)}

omit [DecidableEq A] in
/-- A shard sends its array. -/
theorem Closing.shard {t : Fin (2 ^ k)} (hc : Closing names vw ⟨s, ._shardsFinalize t ::ₘ rest⟩) :
    Closing names vw ⟨s, rest + ([._finalize (s.votedWeights t)] : List (Relay k))⟩ := by
  have hvw : s.votedWeights = vw := hc.votedWeights
  refine ⟨hvw, hc.map_name_eq, fun i => ?_, ?_, fun m hm => ?_⟩
  · have htot := hc.totals i
    rw [Config.carried_cons] at htot
    rw [Config.carried_add, hvw]
    simp only [payload, List.map_cons, List.map_nil, List.sum_cons, List.sum_nil] at htot ⊢
    omega
  · have hratio := hc.ratio
    rw [Config.carried_cons] at hratio
    rw [Config.carried_add]
    simp only [share, List.map_cons, List.map_nil, List.sum_cons, List.sum_nil] at hratio ⊢
    omega
  · rcases Multiset.mem_add.mp hm with hm | hm
    · exact hc.inFlight m (Multiset.mem_cons_of_mem hm)
    · rw [List.mem_singleton.mp (Multiset.mem_coe.mp hm), hvw]
      exact ⟨t, .inr rfl⟩

omit [DecidableEq A] in
/-- An array is gathered. -/
theorem Closing.gather {votes : List ℕ} (hc : Closing names vw ⟨s, ._finalize votes ::ₘ rest⟩)
    (hlen : ∀ t, (vw t).length = names.length) (hsum : ∀ i, ∑ t, (vw t).getD i 0 < 2 ^ 64) :
    ∃ eff, _finalize votes s = .ok eff ∧ eff.relays = [] ∧ Closing names vw ⟨eff.state, rest⟩ := by
  obtain ⟨t, ht⟩ := hc.inFlight _ (Multiset.mem_cons_self _ _)
  obtain rfl : votes = vw t := by
    rcases ht with ht | ht
    · cases ht
    · cases ht
      rfl
  have hle : ∀ i, (vw t).getD i 0 ≤ ∑ t, (vw t).getD i 0 := fun i =>
    Finset.single_le_sum (f := fun t => (vw t).getD i 0) (fun _ _ => Nat.zero_le _)
      (Finset.mem_univ t)
  have htot := hc.totals
  have hratio := hc.ratio
  simp only [Config.carried_cons, payload, share] at htot hratio
  have hshort : (vw t).length ≤ s.proposals.length := by
    rw [hlen, ← hc.map_name_eq, List.length_map]
  have hfits : ∀ i, totalAt s.proposals i + (vw t).getD i 0 < 2 ^ 64 := by
    intro i
    have := htot i
    have := hsum i
    omega
  obtain ⟨ps, hps, hadd⟩ := Preda.Ballot.exists_addShardVotes .trap hshort hfits
  have hvotes : ∀ v ∈ vw t, v < 2 ^ 64 := by
    intro v hv
    obtain ⟨i, hi, rfl⟩ := List.getElem_of_mem hv
    rw [← List.getD_eq_getElem _ 0 hi]
    exact (hle i).trans_lt (hsum i)
  have hfit : s.shardGatherRatio + shardShare k < 2 ^ 32 := by
    have := Preda.Ballot.mul_shardShare_le (Nat.le_refl (2 ^ k))
    omega
  obtain ⟨res, hk⟩ := exists_finalize hvotes hps (addU_of_lt hfit)
  refine ⟨_, hk, rfl, hc.votedWeights, ?_, fun i => ?_, ?_, fun m hm => ?_⟩
  · rw [Preda.Ballot.map_name_of_addShardVotes hps]
    exact hc.map_name_eq
  · have := htot i
    show totalAt ps i + (rest.map (payload vw i)).sum = _
    rw [hadd]
    omega
  · show s.shardGatherRatio + shardShare k + (rest.map share).sum = _
    omega
  · exact hc.inFlight m (Multiset.mem_cons_of_mem hm)

end Gather

omit [DecidableEq A] in
/-- What the votes of a session leave to be gathered. -/
theorem sum_getD_of_casting (hc : Casting X names ws c) (i : ℕ) :
    ∑ t, (c.state.votedWeights t).getD i 0 = tally (fun _ => 1) i (inRange names.length ws) := by
  rw [← Preda.Ballot.sum_shardTally]
  exact Finset.sum_congr rfl fun t _ => hc.getD_eq t i

/-- What a session returns, and how its totals come about. -/
theorem closing_of_run (hr : (machine X).Run AfterInit ⟨empty A X.shardOrder, 0⟩ h c)
    (hlen : vs.length < 2 ^ 64) (hcalls : calls h = sessionCalls names vs) :
    ∃ vw, (∀ t, (vw t).length = names.length) ∧
      (∀ i, ∑ t, (vw t).getD i 0 = tally (fun _ => 1) i (inRange names.length vs)) ∧
      Closing names vw c ∧
      outcomes h = (._startFinalize, .ok none) :: castOutcomes names vs := by
  induction hr with
  | nil => cases hcalls
  | @step h c c' e hr hs hg ih =>
    cases e with
    | deliver m r =>
      obtain ⟨vw, hvw, hsum, hc, hout⟩ := ih hcalls
      refine ⟨vw, hvw, hsum, ?_, hout⟩
      have hfit : ∀ i, ∑ t, (vw t).getD i 0 < 2 ^ 64 := by
        intro i
        rw [hsum]
        exact (tally_inRange_le _ vs i).trans_lt hlen
      obtain ⟨s, flight⟩ := c
      cases hs with
      | @deliverOk _ rest eff hm hk =>
        obtain rfl : flight = m ::ₘ rest := hm
        obtain ⟨t, rfl | rfl⟩ := hc.inFlight m (Multiset.mem_cons_self _ _)
        · cases hk
          exact hc.shard
        · obtain ⟨eff', hk', hrelays, hc'⟩ := hc.gather hvw hfit
          cases hk.symm.trans hk'
          simpa [hrelays] using hc'
      | @deliverError _ rest f hm hk =>
        obtain rfl : flight = m ::ₘ rest := hm
        obtain ⟨t, rfl | rfl⟩ := hc.inFlight m (Multiset.mem_cons_self _ _)
        · cases hk
        · obtain ⟨eff', hk', -⟩ := hc.gather hvw hfit
          cases hk.symm.trans hk'
    | call m r =>
      obtain ⟨rfl, hbefore⟩ := List.cons.inj hcalls
      obtain ⟨hc, hout⟩ := casting_of_run hr hlen hbefore
      obtain ⟨hq, hready⟩ := hc.ready hg
      obtain ⟨rfl, rfl⟩ := hs.of_call_ok
        (show (machine X).call ._startFinalize c.state = .ok _ from rfl)
      exact ⟨c.state.votedWeights, hready, sum_getD_of_casting hc, closing_of_casting hc hq,
        by rw [outcomes_cons_call, hout]⟩

/-! ### Every list of votes can be cast -/

/-- How many deliveries a relay leads to, itself included. -/
def Relay.deliveries : Relay k → ℕ
  | ._init _ => 2 ^ k + 1
  | ._initShardVotedWeights _ => 1
  | ._startFinalize => 2 ^ k * 2 + 1
  | ._shardsFinalize _ => 2
  | ._finalize _ => 1

/-- The relays a relay emits at a state. -/
def Relay.emitted (s : State A k) : Relay k → List (Relay k)
  | ._init _ => (List.finRange (2 ^ k)).map ._initShardVotedWeights
  | ._startFinalize => (List.finRange (2 ^ k)).map ._shardsFinalize
  | ._shardsFinalize t => [._finalize (s.votedWeights t)]
  | ._initShardVotedWeights _ | ._finalize _ => []

theorem relays_of_relay {s : State A X.shardOrder} {m : Relay X.shardOrder}
    {eff : Effect (State A X.shardOrder) (Relay X.shardOrder) (Option Bool)}
    (hk : (machine X).relay m s = .ok eff) : eff.relays = m.emitted s := by
  cases m with
  | _init names =>
    obtain ⟨n, -, hk⟩ := exists_of_bind_eq_ok (show _init names s = .ok eff from hk)
    cases hk
    rfl
  | _finalize votes =>
    have hk : _finalize votes s = .ok eff := hk
    rw [_finalize] at hk
    split at hk
    · obtain ⟨ps, -, hk⟩ := exists_of_bind_eq_ok hk
      obtain ⟨⟨completed, s'⟩, -, hk⟩ := exists_of_bind_eq_ok hk
      cases completed <;> cases hk <;> rfl
    · cases hk
  | _initShardVotedWeights | _startFinalize | _shardsFinalize =>
    cases hk
    rfl

omit [DecidableEq A] in
theorem sum_deliveries_emitted (s : State A k) (m : Relay k) :
    ((m.emitted s).map Relay.deliveries).sum < m.deliveries := by
  cases m <;> simp [Relay.emitted, Relay.deliveries, Function.comp_def]

/-! ### The comparison with the PREDA ballot -/

/-- The votes cast in a history, latest first, and whether each took effect: a vote adds to an entry
or reverts. -/
def effects (h : History A k) : List (Vote A × Bool) :=
  (outcomes h).filterMap fun
    | (.vote a i n, .ok _) => some (⟨a, i, n⟩, true)
    | (.vote a i n, .error _) => some (⟨a, i, n⟩, false)
    | _ => none

namespace Session

/-- In a session a vote takes effect exactly if its index is in range. -/
theorem effects_eq (hs : Session X names vs h c) (hlen : vs.length < 2 ^ 64) :
    effects h = vs.map fun v => (v, decide (v.proposalIndex < names.length)) := by
  obtain ⟨vw, -, -, -, hout⟩ := closing_of_run hs.run hlen hs.calls_eq
  rw [effects, hout, castOutcomes, List.filterMap_cons, List.filterMap_append, List.filterMap_map]
  refine (List.append_nil _).trans ?_
  rw [← List.filterMap_eq_map]
  refine List.filterMap_congr fun v _ => ?_
  by_cases hv : v.proposalIndex < names.length
  · simp [hv, castVote]
  · simp [hv, castVote]

/-- The totals of a session are its votes in range. -/
theorem totalAt_eq (hs : Session X names vs h c) (hlen : vs.length < 2 ^ 64) (i : ℕ) :
    totalAt c.state.proposals i = tally (fun _ => 1) i (inRange names.length vs) := by
  obtain ⟨vw, -, hsum, hc, -⟩ := closing_of_run hs.run hlen hs.calls_eq
  rw [← hsum, ← hc.totals, Config.carried_of_quiescent _ hs.quiet, Nat.add_zero]

/-- Every list of votes has a session. -/
theorem exists_session (X : Chain A) (names : List String) (vs : List (Vote A)) :
    ∃ h c, Session X names vs h c := by
  have hpos : ∀ m : Relay X.shardOrder, 0 < m.deliveries := by
    intro m
    cases m <;> simp [Relay.deliveries]
  obtain ⟨h, c, hr, hq, hcalls⟩ := Machine.exists_eager_run (M := machine X) Relay.deliveries hpos
    (fun {m} _ _ hk => by rw [relays_of_relay hk]; exact sum_deliveries_emitted _ m)
    (empty A X.shardOrder) (sessionCalls names vs)
  refine ⟨h, c, hr.mono fun h c e he => ?_, hcalls, hq⟩
  cases e with
  | call m r =>
    have hnone : ∀ t, ._initShardVotedWeights t ∉ c.inFlight := by
      rw [show c.inFlight = 0 from he]
      exact fun _ => Multiset.notMem_zero _
    cases m <;> trivial
  | deliver m r => trivial

end Session

/-- Where the votes in range count, they are the counted ones. -/
theorem counted_eq_inRange {n : ℕ}
    (hverdicts : Preda.Ballot.verdicts n vs =
      vs.map fun v => (v, decide (v.proposalIndex < n))) :
    Preda.Ballot.counted n vs = inRange n vs := by
  rw [Preda.Ballot.counted_eq_filterMap, hverdicts, List.filterMap_map, inRange,
    ← List.filterMap_eq_filter]
  refine List.filterMap_congr fun v _ => ?_
  simp [Option.guard]

/-- When the votes that count on the PREDA ballot are the votes in range. -/
theorem verdicts_eq_iff (n : ℕ) (vs : List (Vote A)) :
    Preda.Ballot.verdicts n vs = vs.map (fun v => (v, decide (v.proposalIndex < n))) ↔
      (∀ v ∈ vs, v.proposalIndex < n → v.caseNum = 1) ∧
        ((inRange n vs).map Vote.voter).Nodup := by
  induction vs with
  | nil => simp [Preda.Ballot.verdicts, inRange]
  | cons v vs ih =>
    have hhead : Preda.Ballot.verdicts n vs =
        vs.map (fun v => (v, decide (v.proposalIndex < n))) →
        ((Preda.Ballot.Counts n (Preda.Ballot.counted n vs) v ↔ v.proposalIndex < n) ↔
          (v.proposalIndex < n → v.caseNum = 1 ∧ v.voter ∉ (inRange n vs).map Vote.voter)) := by
      intro hverdicts
      rw [counted_eq_inRange hverdicts, Preda.Ballot.Counts]
      tauto
    have hnodup : ((inRange n (v :: vs)).map Vote.voter).Nodup ↔
        (v.proposalIndex < n → v.voter ∉ (inRange n vs).map Vote.voter) ∧
          ((inRange n vs).map Vote.voter).Nodup := by
      by_cases hv : v.proposalIndex < n
      · rw [inRange, List.filter_cons_of_pos (by simpa using hv), ← inRange, List.map_cons,
          List.nodup_cons]
        simp [hv]
      · rw [inRange, List.filter_cons_of_neg (by simpa using hv), ← inRange]
        simp [hv]
    rw [Preda.Ballot.verdicts, List.map_cons, List.cons.injEq, Prod.mk.injEq, decide_eq_decide,
      List.forall_mem_cons, hnodup]
    constructor
    · rintro ⟨⟨-, hcounts⟩, htail⟩
      have hv := (hhead htail).mp hcounts
      obtain ⟨hcases, hdistinct⟩ := ih.mp htail
      exact ⟨⟨fun hi => (hv hi).1, hcases⟩, fun hi => (hv hi).2, hdistinct⟩
    · rintro ⟨⟨hcase, hcases⟩, hnew, hdistinct⟩
      have htail := ih.mpr ⟨hcases, hdistinct⟩
      exact ⟨⟨rfl, (hhead htail).mpr fun hi => ⟨hcase hi, hnew hi⟩⟩, htail⟩

/-- **When the two ballots count the same votes.** Take any names and any list of fewer than
`2 ^ 64` votes, by any addresses and with any arguments, and cast it in a session of each contract,
every address having weight 1 on the PREDA side. The votes that take effect on the Crystality side
are those that return true on the PREDA side, and the totals agree, exactly if the votes for a
proposal there is are all for case 1 and from distinct addresses. -/
theorem counts_same_iff {Y : Chain A} {a b : A} (hlen : vs.length < 2 ^ 64)
    {hp : Preda.Ballot.History A Y.shardOrder}
    {cp : Config (Preda.Ballot.State A Y.shardOrder) (Preda.Ballot.Relay Y.shardOrder)}
    (hs : Session X names vs h c)
    (hsp : Preda.Ballot.Session Y (fun _ => 1) names a b vs hp cp) :
    (effects h = Preda.Ballot.returned hp ∧
      ∀ i, totalAt c.state.proposals i = totalAt cp.state.proposals i) ↔
    (∀ v ∈ vs, v.proposalIndex < names.length → v.caseNum = 1) ∧
      ((inRange names.length vs).map Vote.voter).Nodup := by
  have hfit : Preda.Ballot.weigh (fun _ => 1) (fun _ => True)
      (Preda.Ballot.counted names.length vs) < 2 ^ 64 := by
    rw [Preda.Ballot.weigh_one]
    exact (Preda.Ballot.counted_sublist _ vs).length_le.trans_lt hlen
  rw [hs.effects_eq hlen, hsp.returned_eq hfit, ← verdicts_eq_iff, eq_comm]
  refine and_iff_left_of_imp fun hverdicts i => ?_
  rw [hs.totalAt_eq hlen, hsp.totalAt_eq hfit, counted_eq_inRange hverdicts]

end Runs

/-- Two addresses vote once each in case 1, and one of them once more for a proposal that is not
there. -/
theorem counts_same_iff_distinct : ∃ h c hp cp,
    Session (Preda.twoShards .trap) ["Spring", "Yarn"] [⟨1, 7, 2⟩, ⟨1, 1, 1⟩, ⟨0, 0, 1⟩] h c ∧
    Preda.Ballot.Session (Preda.oneShard .trap) (fun _ => 1) ["Spring", "Yarn"] 0 1
      [⟨1, 7, 2⟩, ⟨1, 1, 1⟩, ⟨0, 0, 1⟩] hp cp ∧
    effects h = Preda.Ballot.returned hp ∧
    ∀ i, totalAt c.state.proposals i = totalAt cp.state.proposals i := by
  obtain ⟨h, c, hs⟩ := Session.exists_session (Preda.twoShards .trap) ["Spring", "Yarn"]
    [⟨1, 7, 2⟩, ⟨1, 1, 1⟩, ⟨0, 0, 1⟩]
  obtain ⟨hp, cp, hsp⟩ := Preda.Ballot.Session.exists_session (Preda.oneShard .trap) (fun _ => 1)
    ["Spring", "Yarn"] 0 1 [⟨1, 7, 2⟩, ⟨1, 1, 1⟩, ⟨0, 0, 1⟩]
  have hsame := (counts_same_iff (by decide) hs hsp).mpr (by decide)
  exact ⟨h, c, hp, cp, hs, hsp, hsame⟩

/-- Address 0 votes for case 1 and then for case 2, which there is not: the PREDA ballot accepts the
first vote only, the Crystality ballot counts both. -/
theorem counts_differ : ∃ h c hp cp,
    Session (Preda.oneShard .trap) ["Spring"] [⟨0, 0, 2⟩, ⟨0, 0, 1⟩] h c ∧
    Preda.Ballot.Session (Preda.oneShard .trap) (fun _ => 1) ["Spring"] 0 1
      [⟨0, 0, 2⟩, ⟨0, 0, 1⟩] hp cp ∧
    effects h = [(⟨0, 0, 2⟩, true), (⟨0, 0, 1⟩, true)] ∧
    Preda.Ballot.returned hp = [(⟨0, 0, 2⟩, false), (⟨0, 0, 1⟩, true)] ∧
    totalAt c.state.proposals 0 = 2 ∧ totalAt cp.state.proposals 0 = 1 := by
  obtain ⟨⟨h, c⟩, hx, hcalls, hq, heffects, htotal⟩ :
      ∃ r ∈ (machine (Preda.oneShard .trap)).exec AfterInit ⟨empty (Fin 2) 0, 0⟩
        [.call (._init ["Spring"]), .deliver (._initShardVotedWeights 0), .call (.vote 0 0 1),
          .call (.vote 0 0 2), .call ._startFinalize, .deliver (._shardsFinalize 0),
          .deliver (._finalize [2])],
        calls r.1 = sessionCalls ["Spring"] [⟨0, 0, 2⟩, ⟨0, 0, 1⟩] ∧ r.2.inFlight = 0 ∧
          effects r.1 = [(⟨0, 0, 2⟩, true), (⟨0, 0, 1⟩, true)] ∧
          totalAt r.2.state.proposals 0 = 2 := by decide
  obtain ⟨⟨hp, cp⟩, hxp, hcallsp, hqp, hreturned, htotalp⟩ :
      ∃ r ∈ (Preda.Ballot.machine (Preda.oneShard .trap)).exec Preda.Ballot.AfterInit
        ⟨Preda.Ballot.empty 0 fun _ => 1, 0⟩
        [.call (.init 0 ["Spring"]), .deliver (.initGlobal ["Spring"]), .call (.vote 0 0 1),
          .call (.vote 0 0 2), .call (.finalize 1), .deliver .finalizeGlobal,
          .deliver (.finalizeShard 0), .deliver (.finalizeGather [1])],
        calls r.1 = Preda.Ballot.sessionCalls ["Spring"] 0 1 [⟨0, 0, 2⟩, ⟨0, 0, 1⟩] ∧
          r.2.inFlight = 0 ∧
          Preda.Ballot.returned r.1 = [(⟨0, 0, 2⟩, false), (⟨0, 0, 1⟩, true)] ∧
          totalAt r.2.state.proposals 0 = 1 := by decide
  exact ⟨h, c, hp, cp, ⟨Machine.exec_run hx, hcalls, hq⟩, ⟨Machine.exec_run hxp, hcallsp, hqp⟩,
    heffects, hreturned, htotal, htotalp⟩

end Ballot

end Crystality

end RelayContracts
