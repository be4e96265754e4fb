import RelayContracts.FirstMax
import RelayContracts.RelayMachine
import RelayContracts.Preda.Runtime

/-!
# The PREDA Ballot contract

The contract of `Ballot.prd`. Voting is sharded: a vote is added to an array of its own shard, and
a finalization collects the arrays. `finalize` relays to the global scope, which resets the gather
counter and relays to every shard; each shard relays a copy of its array back to the global scope,
which adds it to the totals, and the copy that completes the count also decides the result.

The four relayed blocks are the constructors of `Relay`, with what the block captures as
arguments: `initGlobal` for the block of `init`, and `finalizeGlobal`, `finalizeShard` and
`finalizeGather` for the three nested blocks of `finalize`.

## What is left out

`controller` is assigned nowhere and read only in comments, and `__debug.print` has no effect, so
neither appears. `shardGather_isCompleted` is not called.

## Values

A fragment returns `some b` where the source returns the boolean `b`, and `none` where it returns
nothing. The gather block returns nothing either, but the value `shardGather_gather` gave it
decides what it does, so that value is what it is recorded to return.

## Main definitions

* `Ballot.State`, `Ballot.init`, `Ballot.vote`, `Ballot.finalize` and the four relayed blocks
* `Ballot.machine` — the contract as a relay machine
* `Ballot.Called`, `Ballot.Delivered` — everything a successful call or relay can have done
-/

namespace RelayContracts

namespace Preda

namespace Ballot

open RelayMachine

/-- `struct Proposal`. -/
@[ext] structure Proposal where
  /-- The proposal's name. -/
  name : String
  /-- The weight gathered for it, a `uint64`. -/
  totalVotedWeight : ℕ
  deriving DecidableEq, Repr

/-- `struct BallotResult`. -/
structure BallotResult where
  /-- The name of the winner. -/
  topVoted : String
  /-- The field `case`, a `uint32`. -/
  caseNum : ℕ
  deriving DecidableEq, Repr

/-- The state of the contract, all scopes together, on a chain of shard order `k`. -/
structure State (A : Type) (k : ℕ) where
  /-- `@global uint32 current_case`. -/
  currentCase : ℕ
  /-- `@global array<Proposal> proposals`. -/
  proposals : List Proposal
  /-- `@global BallotResult last_result`. -/
  lastResult : BallotResult
  /-- `@global uint32 shardGatherRatio`. -/
  shardGatherRatio : ℕ
  /-- `@shard array<uint64> votedWeights`. -/
  votedWeights : Fin (2 ^ k) → List ℕ
  /-- `@address uint64 weight`. -/
  weight : A → ℕ
  /-- `@address uint32 voted_case`. -/
  votedCase : A → ℕ

/-- The exported functions, with the address they are called at. -/
inductive Call (A : Type) where
  /-- `init(names)`. -/
  | init (self : A) (names : List String)
  /-- `vote(proposal_index, case_num)`. -/
  | vote (self : A) (proposalIndex caseNum : ℕ)
  /-- `finalize()`. -/
  | finalize (self : A)
  deriving DecidableEq, Repr

/-- The relayed blocks, with what they capture. -/
inductive Relay (k : ℕ) where
  /-- `relay@global (^names)` of `init`. -/
  | initGlobal (names : List String)
  /-- `relay@global ()` of `finalize`. -/
  | finalizeGlobal
  /-- `relay@shards ()`, at one shard. -/
  | finalizeShard (s : Fin (2 ^ k))
  /-- `relay@global (auto shardVotes = votedWeights)`. -/
  | finalizeGather (shardVotes : List ℕ)
  deriving DecidableEq, Repr

variable {A : Type} {k : ℕ}

/-- The state a deployment starts from, with the weights the addresses have been given. -/
def empty (k : ℕ) (weight : A → ℕ) : State A k where
  currentCase := 0
  proposals := []
  lastResult := ⟨"", 0⟩
  shardGatherRatio := 0
  votedWeights := fun _ => []
  weight := weight
  votedCase := fun _ => 0

/-! ### The functions -/

/-- `is_voting()`. -/
def IsVoting (s : State A k) : Prop := s.lastResult.caseNum < s.currentCase

instance (s : State A k) : Decidable (IsVoting s) := inferInstanceAs (Decidable (_ < _))

/-- `init(names)`: the address part only checks that no case is open. -/
def init (names : List String) (s : State A k) :
    Except Fault (Effect (State A k) (Relay k) (Option Bool)) :=
  if IsVoting s then .error .assertion else .ok ⟨s, none, [.initGlobal names]⟩

/-- The block `init` relays to the global scope. -/
def initGlobal (p : Overflow) (names : List String) (s : State A k) :
    Except Fault (Effect (State A k) (Relay k) (Option Bool)) := do
  -- the loop pushes one proposal per name
  let proposals := names.foldl (fun ps name => ps ++ [⟨name, 0⟩]) s.proposals
  let currentCase ← addU p 32 s.currentCase 1
  .ok ⟨{ s with proposals, currentCase, lastResult := ⟨"", 0⟩ }, none, []⟩

/-- `vote(proposal_index, case_num)`. -/
def vote [DecidableEq A] (X : Chain A) (self : A) (proposalIndex caseNum : ℕ)
    (s : State A X.shardOrder) :
    Except Fault (Effect (State A X.shardOrder) (Relay X.shardOrder) (Option Bool)) :=
  if caseNum = s.currentCase ∧ s.votedCase self < caseNum ∧ proposalIndex < s.proposals.length then
    do
      let resized := setLength 0 s.proposals.length (s.votedWeights (X.shardOf self))
      let tallied ← addAt X.overflow 64 resized proposalIndex (s.weight self)
      .ok ⟨{ s with
        votedCase := Function.update s.votedCase self caseNum
        votedWeights := Function.update s.votedWeights (X.shardOf self) tallied }, some true, []⟩
  else .ok ⟨s, some false, []⟩

/-- `finalize()`: the address part only checks that a case is open. -/
def finalize (s : State A k) : Except Fault (Effect (State A k) (Relay k) (Option Bool)) :=
  if IsVoting s then .ok ⟨s, none, [.finalizeGlobal]⟩ else .error .assertion

/-- `shardGather_reset()`. -/
def shardGatherReset (s : State A k) : State A k := { s with shardGatherRatio := 0 }

/-- `0x80000000u >> __block.get_shard_order()`: what one shard contributes to the ratio. -/
def shardShare (k : ℕ) : ℕ := 0x80000000 >>> k

/-- `shardGather_gather()`: the new ratio, and whether it is complete. -/
def shardGatherGather (p : Overflow) (s : State A k) : Except Fault (Bool × State A k) := do
  let ratio ← addU p 32 s.shardGatherRatio (shardShare k)
  .ok (ratio == 0x80000000, { s with shardGatherRatio := ratio })

/-- The block `finalize` relays to the global scope: reset, and scatter to every shard. -/
def finalizeGlobal (s : State A k) :
    Except Fault (Effect (State A k) (Relay k) (Option Bool)) :=
  .ok ⟨shardGatherReset s, none, (List.finRange (2 ^ k)).map .finalizeShard⟩

/-- The block executed at each shard: relay a copy of its array. -/
def finalizeShard (i : Fin (2 ^ k)) (s : State A k) :
    Except Fault (Effect (State A k) (Relay k) (Option Bool)) :=
  .ok ⟨s, none, [.finalizeGather (s.votedWeights i)]⟩

/-- The loop of the gather block: `proposals[i].totalVotedWeight += shardVotes[i]`. -/
def addShardVotes (p : Overflow) : List Proposal → List ℕ → Except Fault (List Proposal)
  | ps, [] => .ok ps
  | [], _ :: _ => .error .outOfRange
  | q :: ps, v :: vs => do
    let total ← addU p 64 q.totalVotedWeight v
    let ps ← addShardVotes p ps vs
    .ok ({ q with totalVotedWeight := total } :: ps)

/-- The loop that decides the result. It starts from the `topVoted` already there. -/
def topVoted (ps : List Proposal) (top : String) : String :=
  (scanMax Proposal.totalVotedWeight Proposal.name ps top 0).1

/-- The block that gathers one shard's array. -/
def finalizeGather (p : Overflow) (shardVotes : List ℕ) (s : State A k) :
    Except Fault (Effect (State A k) (Relay k) (Option Bool)) := do
  let proposals ← addShardVotes p s.proposals shardVotes
  let (completed, s) ← shardGatherGather p { s with proposals }
  if completed then
    .ok ⟨{ s with lastResult := ⟨topVoted s.proposals s.lastResult.topVoted, s.currentCase⟩ },
      some true, []⟩
  else .ok ⟨s, some false, []⟩

/-- Gathering fails only where one of its two additions does. -/
theorem exists_finalizeGather {p : Overflow} {votes : List ℕ} {s : State A k} {ps : List Proposal}
    {r : ℕ} (hps : addShardVotes p s.proposals votes = .ok ps)
    (hr : addU p 32 s.shardGatherRatio (shardShare k) = .ok r) :
    ∃ eff, finalizeGather p votes s = .ok eff := by
  rw [finalizeGather, hps]
  simp only [shardGatherGather, hr, bind, Except.bind]
  split
  · exact ⟨_, rfl⟩
  · exact ⟨_, rfl⟩

/-- The contract as a relay machine. -/
def machine [DecidableEq A] (X : Chain A) :
    Machine (State A X.shardOrder) (Call A) (Relay X.shardOrder) (Option Bool) Fault where
  call
    | .init _ names => init names
    | .vote self proposalIndex caseNum => vote X self proposalIndex caseNum
    | .finalize _ => finalize
  relay
    | .initGlobal names => initGlobal X.overflow names
    | .finalizeGlobal => finalizeGlobal
    | .finalizeShard i => finalizeShard i
    | .finalizeGather shardVotes => finalizeGather X.overflow shardVotes

/-! ### The gather loop -/

/-- The total of the proposal at an index, `0` past the end. -/
def totalAt (ps : List Proposal) (i : ℕ) : ℕ := (ps.map Proposal.totalVotedWeight).getD i 0

@[simp] theorem totalAt_nil (i : ℕ) : totalAt [] i = 0 := rfl

@[simp] theorem totalAt_cons_zero (q : Proposal) (ps : List Proposal) :
    totalAt (q :: ps) 0 = q.totalVotedWeight := rfl

@[simp] theorem totalAt_cons_succ (q : Proposal) (ps : List Proposal) (i : ℕ) :
    totalAt (q :: ps) (i + 1) = totalAt ps i := rfl

theorem totalAt_eq {ps : List Proposal} {i : ℕ} (hi : i < ps.length) :
    totalAt ps i = ps[i].totalVotedWeight := by
  rw [totalAt, List.getD_eq_getElem _ _ (by simpa using hi), List.getElem_map]

theorem totalAt_of_le {ps : List Proposal} {i : ℕ} (hi : ps.length ≤ i) : totalAt ps i = 0 := by
  rw [totalAt, List.getD_eq_default _ _ (by simpa using hi)]

theorem lt_length_of_totalAt_pos {ps : List Proposal} {i : ℕ} (hpos : 0 < totalAt ps i) :
    i < ps.length := by
  by_contra hi
  rw [totalAt_of_le (Nat.le_of_not_lt hi)] at hpos
  exact Nat.lt_irrefl 0 hpos

/-- Opening a case adds no weight. -/
theorem totalAt_append_zero (ps : List Proposal) (names : List String) (i : ℕ) :
    totalAt (ps ++ names.map fun name => ⟨name, 0⟩) i = totalAt ps i := by
  induction ps generalizing i with
  | nil =>
    rw [List.nil_append, totalAt, List.map_map, List.getD_eq_getElem?_getD, List.getElem?_map]
    cases names[i]? <;> rfl
  | cons q ps ih =>
    cases i with
    | zero => rfl
    | succ i => exact ih i

theorem map_name_of_addShardVotes {p : Overflow} :
    ∀ {ps qs : List Proposal} {vs : List ℕ}, addShardVotes p ps vs = .ok qs →
      qs.map Proposal.name = ps.map Proposal.name
  | ps, qs, [], h => by
    rw [addShardVotes] at h
    cases h
    rfl
  | [], qs, _ :: _, h => by cases h
  | q :: ps, qs, v :: vs, h => by
    obtain ⟨total, -, h⟩ := exists_of_bind_eq_ok (by rwa [addShardVotes] at h)
    obtain ⟨rest, hrest, h⟩ := exists_of_bind_eq_ok h
    cases h
    rw [List.map_cons, map_name_of_addShardVotes hrest, List.map_cons]

theorem length_of_addShardVotes {p : Overflow} {ps qs : List Proposal} {vs : List ℕ}
    (h : addShardVotes p ps vs = .ok qs) : qs.length = ps.length := by
  simpa using congrArg List.length (map_name_of_addShardVotes h)

theorem eq_nil_of_addShardVotes {p : Overflow} {qs : List Proposal} {vs : List ℕ}
    (h : addShardVotes p [] vs = .ok qs) : qs = [] :=
  List.eq_nil_of_length_eq_zero (length_of_addShardVotes h)

/-- An array no longer than the list of proposals is added entry by entry, if the sums fit. -/
theorem exists_addShardVotes (p : Overflow) :
    ∀ {ps : List Proposal} {vs : List ℕ}, vs.length ≤ ps.length →
      (∀ i, totalAt ps i + vs.getD i 0 < 2 ^ 64) →
      ∃ qs, addShardVotes p ps vs = .ok qs ∧ ∀ i, totalAt qs i = totalAt ps i + vs.getD i 0
  | ps, [], _, _ => ⟨ps, by rw [addShardVotes], fun i => by simp⟩
  | [], v :: vs, hlen, _ => absurd hlen (by simp)
  | q :: ps, v :: vs, hlen, hfit => by
    obtain ⟨qs, hqs, htot⟩ := exists_addShardVotes p (Nat.le_of_succ_le_succ hlen)
      fun i => hfit (i + 1)
    have h0 : q.totalVotedWeight + v < 2 ^ 64 := hfit 0
    refine ⟨{ q with totalVotedWeight := q.totalVotedWeight + v } :: qs, ?_, fun i => ?_⟩
    · rw [addShardVotes, addU_of_lt h0, hqs]
      rfl
    · cases i with
      | zero => rfl
      | succ i => exact htot i

theorem addShardVotes_ne_outOfRange {p : Overflow} :
    ∀ {ps : List Proposal} {vs : List ℕ}, vs.length ≤ ps.length →
      addShardVotes p ps vs ≠ .error .outOfRange
  | ps, [], _ => by rw [addShardVotes]; exact fun h => by cases h
  | [], v :: vs, hlen => absurd hlen (by simp)
  | q :: ps, v :: vs, hlen => by
    intro h
    rw [addShardVotes] at h
    rcases of_bind_eq_error h with h | ⟨total, -, h⟩
    · exact addU_ne_outOfRange h
    · rcases of_bind_eq_error h with h | ⟨rest, -, h⟩
      · exact addShardVotes_ne_outOfRange (Nat.le_of_succ_le_succ hlen) h
      · cases h

/-! ### What a successful step did

Every invariant below is a case analysis over the steps. The two relations list once what each
step checks and what it leaves behind, so that no later proof opens a function of the contract. -/

/-- What a successful call did, at a state `s`. -/
inductive Called [DecidableEq A] (X : Chain A) (s : State A X.shardOrder) :
    Call A → Effect (State A X.shardOrder) (Relay X.shardOrder) (Option Bool) → Prop
  /-- `init` found no case open and relayed the names. -/
  | init {a : A} {names : List String} (hopen : ¬ IsVoting s) :
      Called X s (.init a names) ⟨s, none, [.initGlobal names]⟩
  /-- `vote` accepted, and recorded the vote in the shard and at the address. -/
  | accept {a : A} {i c : ℕ} {tallied : List ℕ} (hcase : c = s.currentCase)
      (hvoted : s.votedCase a < c) (hi : i < s.proposals.length)
      (hadd : addAt X.overflow 64 (setLength 0 s.proposals.length (s.votedWeights (X.shardOf a))) i
        (s.weight a) = .ok tallied) :
      Called X s (.vote a i c) ⟨{ s with
        votedCase := Function.update s.votedCase a c
        votedWeights := Function.update s.votedWeights (X.shardOf a) tallied }, some true, []⟩
  /-- `vote` rejected, and changed nothing. -/
  | reject {a : A} {i c : ℕ}
      (hno : ¬ (c = s.currentCase ∧ s.votedCase a < c ∧ i < s.proposals.length)) :
      Called X s (.vote a i c) ⟨s, some false, []⟩
  /-- `finalize` found a case open and relayed. -/
  | finalize {a : A} (hopen : IsVoting s) : Called X s (.finalize a) ⟨s, none, [.finalizeGlobal]⟩

/-- What a successful relay did, at a state `s`. -/
inductive Delivered (X : Chain A) (s : State A X.shardOrder) :
    Relay X.shardOrder → Effect (State A X.shardOrder) (Relay X.shardOrder) (Option Bool) → Prop
  /-- A new case is opened. -/
  | initGlobal {names : List String} {n : ℕ} (hn : addU X.overflow 32 s.currentCase 1 = .ok n) :
      Delivered X s (.initGlobal names) ⟨{ s with
        proposals := s.proposals ++ names.map fun name => ⟨name, 0⟩
        currentCase := n
        lastResult := ⟨"", 0⟩ }, none, []⟩
  /-- The gather counter is reset and every shard is asked for its array. -/
  | finalizeGlobal : Delivered X s .finalizeGlobal
      ⟨{ s with shardGatherRatio := 0 }, none,
        (List.finRange (2 ^ X.shardOrder)).map .finalizeShard⟩
  /-- A shard sends its array. -/
  | finalizeShard {i : Fin (2 ^ X.shardOrder)} :
      Delivered X s (.finalizeShard i) ⟨s, none, [.finalizeGather (s.votedWeights i)]⟩
  /-- An array is gathered and others are still missing. -/
  | gather {votes : List ℕ} {ps : List Proposal} {r : ℕ}
      (hps : addShardVotes X.overflow s.proposals votes = .ok ps)
      (hr : addU X.overflow 32 s.shardGatherRatio (shardShare X.shardOrder) = .ok r)
      (hmore : r ≠ 0x80000000) :
      Delivered X s (.finalizeGather votes)
        ⟨{ s with proposals := ps, shardGatherRatio := r }, some false, []⟩
  /-- The array that completes the gathering decides the result. -/
  | complete {votes : List ℕ} {ps : List Proposal}
      (hps : addShardVotes X.overflow s.proposals votes = .ok ps)
      (hr : addU X.overflow 32 s.shardGatherRatio (shardShare X.shardOrder) = .ok 0x80000000) :
      Delivered X s (.finalizeGather votes) ⟨{ s with
        proposals := ps
        shardGatherRatio := 0x80000000
        lastResult := ⟨topVoted ps s.lastResult.topVoted, s.currentCase⟩ }, some true, []⟩

theorem foldl_push (names : List String) (ps : List Proposal) :
    names.foldl (fun ps name => ps ++ [⟨name, 0⟩]) ps = ps ++ names.map fun name => ⟨name, 0⟩ := by
  induction names generalizing ps with
  | nil => simp
  | cons name names ih => rw [List.foldl_cons, ih, List.map_cons, List.append_assoc]; rfl

variable [DecidableEq A] {X : Chain A} {s : State A X.shardOrder}
  {eff : Effect (State A X.shardOrder) (Relay X.shardOrder) (Option Bool)}

theorem called_of_ok {c : Call A} (h : (machine X).call c s = .ok eff) : Called X s c eff := by
  cases c with
  | init a names =>
    have h : (if IsVoting s then _ else _) = Except.ok eff := h
    by_cases hv : IsVoting s
    · rw [if_pos hv] at h
      cases h
    · rw [if_neg hv] at h
      cases h
      exact .init hv
  | vote a i c =>
    have h : vote X a i c s = .ok eff := h
    rw [vote] at h
    split at h
    · rename_i hacc
      obtain ⟨tallied, hadd, h⟩ := exists_of_bind_eq_ok h
      cases h
      exact .accept hacc.1 hacc.2.1 hacc.2.2 hadd
    · cases h
      exact .reject ‹_›
  | finalize a =>
    have h : (if IsVoting s then _ else _) = Except.ok eff := h
    by_cases hv : IsVoting s
    · rw [if_pos hv] at h
      cases h
      exact .finalize hv
    · rw [if_neg hv] at h
      cases h

theorem delivered_of_ok {m : Relay X.shardOrder} (h : (machine X).relay m s = .ok eff) :
    Delivered X s m eff := by
  cases m with
  | initGlobal names =>
    obtain ⟨n, hn, h⟩ := exists_of_bind_eq_ok (show initGlobal X.overflow names s = .ok eff from h)
    rw [foldl_push] at h
    cases h
    exact .initGlobal hn
  | finalizeGlobal =>
    cases h
    exact .finalizeGlobal
  | finalizeShard i =>
    cases h
    exact .finalizeShard
  | finalizeGather votes =>
    obtain ⟨ps, hps, h⟩ :=
      exists_of_bind_eq_ok (show finalizeGather X.overflow votes s = .ok eff from h)
    obtain ⟨⟨completed, s'⟩, hg, h⟩ := exists_of_bind_eq_ok h
    obtain ⟨r, hr, hg⟩ := exists_of_bind_eq_ok hg
    cases hg
    by_cases hc : r = 0x80000000
    · subst hc
      cases h
      exact .complete hps hr
    · have hb : (r == 0x80000000) = false := beq_eq_false_iff_ne.mpr hc
      simp only [hb] at h
      cases h
      exact .gather hps hr hc

end Ballot

end Preda

end RelayContracts
