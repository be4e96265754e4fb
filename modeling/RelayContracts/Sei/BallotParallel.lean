import RelayContracts.Preda.BallotSession
import RelayContracts.Sei.Ballot

/-!
# The sharded ballot equals the sequential one

The PREDA ballot spreads the votes over shards and gathers them again; the Sei ballot adds them to
one array. For a session in which no address votes twice, `parallel_eq_sequential` says that nobody
can tell the two apart: each vote returns the same, and the totals and the result are the same.

Both sides are compared with the list of votes. On the PREDA side `BallotSession` has done so; the
first half of this file does it for the Sei contract, where it is a computation, since without
relays there is only one run.
-/

namespace RelayContracts

namespace Sei

namespace Ballot

open RelayMachine
open Preda (Chain addAt)
open Preda.Ballot (Proposal Vote tally weigh topVoted totalAt addShardVotes)

variable {A : Type}

/-- The call that casts a vote. -/
def castVote (v : Vote A) : Call A := .vote v.voter v.proposalIndex v.caseNum

/-- The calls of a session, latest first: `a` calls `init`, the votes `vs` are cast, and `b` calls
`finalize`. -/
def sessionCalls (names : List String) (a b : A) (vs : List (Vote A)) : List (Call A) :=
  .finalize b :: (vs.map castVote ++ [.init a names])

theorem isBallot_of_mem {names : List String} {a b : A} {vs : List (Vote A)} {k : Call A}
    (hk : k ∈ sessionCalls names a b vs) : k.isBallot := by
  rcases List.mem_cons.mp hk with rfl | hk
  · rfl
  · rcases List.mem_append.mp hk with hk | hk
    · obtain ⟨v, -, rfl⟩ := List.mem_map.mp hk
      rfl
    · rw [List.mem_singleton.mp hk]
      rfl

/-- A vote for case 1 and one of `n` proposals. -/
def Timely (n : ℕ) (v : Vote A) : Prop := v.caseNum = 1 ∧ v.proposalIndex < n

instance (n : ℕ) (v : Vote A) : Decidable (Timely n v) := inferInstanceAs (Decidable (_ ∧ _))

/-- The votes of a list for case 1 and one of `n` proposals. -/
def timely (n : ℕ) (vs : List (Vote A)) : List (Vote A) := vs.filter fun v => Timely n v

/-- What `init` and the votes `ws` of a session return, latest first. -/
def castOutcomes (names : List String) (a : A) (ws : List (Vote A)) :
    List (Call A × Except Fault Value) :=
  ws.map (fun v => (castVote v, .ok (.bool (decide (Timely names.length v))))) ++
    [(.init a names, .ok (.uint32 1))]

/-- Case 1 is open, and nothing has been finalized. -/
structure Open (names : List String) (s : State A) : Prop where
  currentCase : s.currentCase = 1
  proposals : s.proposals = names.map fun name => ⟨name, 0⟩
  lastResult : s.lastResult = ⟨"", 0⟩

/-! ### A session of the Sei ballot -/

section Session

variable [DecidableEq A] {weight : A → ℕ} {names : List String} {a b : A} {vs ws : List (Vote A)}
  {h : History A} {c : Config (State A) Empty}

theorem init_deployed (weight : A → ℕ) (names : List String) (a : A) :
    ∃ eff, machine.call (.init a names) (deployed weight) = .ok eff ∧ eff.value = .uint32 1 ∧
      Open names eff.state := by
  refine ⟨_, rfl, rfl, rfl, ?_, rfl⟩
  exact (Preda.Ballot.foldl_push names []).trans (List.nil_append _)

/-- What a vote of a session returns. -/
theorem vote_returns {s : State A} (ho : Open names s) (ht : Tallied weight h s) {v : Vote A}
    (hfit : Timely names.length v →
      weigh weight (fun _ => True) (v :: acceptedVotes h) < 2 ^ 64) :
    ∃ eff, machine.call (castVote v) s = .ok eff ∧
      eff.value = .bool (decide (Timely names.length v)) ∧ Open names eff.state := by
  have hlen : s.proposals.length = names.length := by rw [ho.proposals, List.length_map]
  rw [show machine.call (castVote v) s = vote v.voter v.proposalIndex v.caseNum s from rfl, vote,
    ho.currentCase, hlen, ht.votedCase_eq]
  by_cases hv : Timely names.length v
  · obtain ⟨hone, hi⟩ := id hv
    have hsum : s.votedWeights.getD v.proposalIndex 0 + s.weight v.voter < 2 ^ 64 := by
      have hle := Preda.Ballot.tally_le weight v.proposalIndex (acceptedVotes h)
      have hfit := hfit hv
      rw [Preda.Ballot.weigh_cons, if_pos trivial] at hfit
      rw [ht.getD_eq, ht.weight_eq]
      omega
    obtain ⟨tallied, hadd⟩ :=
      Preda.exists_addAt (p := .trap) (by rw [ht.length, hlen]; exact hi) hsum
    rw [if_pos ⟨hone, hone ▸ Nat.one_pos, hi⟩, hadd, ok_bind, decide_eq_true hv]
    exact ⟨_, rfl, rfl, rfl, ho.proposals, ho.lastResult⟩
  · rw [if_neg fun hc => hv ⟨hc.1, hc.2.2⟩, decide_eq_false hv]
    exact ⟨_, rfl, rfl, ho⟩

omit [DecidableEq A] in
/-- The accepted votes, read off the outcomes. -/
theorem acceptedVotes_of_outcomes {h : History A} (hout : outcomes h = castOutcomes names a ws) :
    acceptedVotes h = timely names.length ws := by
  rw [acceptedVotes, filterMap_eq_filterMap_outcomes (fun m => m.elim), hout, castOutcomes,
    List.filterMap_append, List.filterMap_map, timely, ← List.filterMap_eq_filter]
  refine (List.append_nil _).trans (List.filterMap_congr fun v _ => ?_)
  by_cases hv : Timely names.length v
  · simp [hv, castVote, accepted?, Option.guard]
  · simp [hv, castVote, accepted?, Option.guard]

/-- What `init` and the votes of a session return, and where they lead. -/
theorem outcomes_of_votes (hr : machine.Run BallotOnly ⟨deployed weight, 0⟩ h c)
    (hfit : weigh weight (fun _ => True) (timely names.length vs) < 2 ^ 64)
    (hws : ws <:+ vs) (hcalls : calls h = ws.map castVote ++ [.init a names]) :
    Open names c.state ∧ outcomes h = castOutcomes names a ws := by
  induction hr generalizing ws with
  | nil => simp at hcalls
  | @step h c c' e hr hs hg ih =>
    cases e with
    | deliver m r => exact m.elim
    | call m r =>
      rw [outcomes_cons_call]
      cases ws with
      | nil =>
        obtain ⟨rfl, hnil⟩ := List.cons.inj hcalls
        obtain ⟨rfl, rfl⟩ := hr.eq_nil_of_calls hnil
        obtain ⟨eff, hk, hvalue, ho⟩ := init_deployed weight names a
        obtain ⟨rfl, rfl⟩ := hs.of_call_ok hk
        exact ⟨ho, by rw [hvalue]; rfl⟩
      | cons v ws =>
        obtain ⟨rfl, hbefore⟩ := List.cons.inj hcalls
        obtain ⟨ho, hout⟩ := ih ((List.suffix_cons v ws).trans hws) hbefore
        obtain ⟨eff, hk, hvalue, ho'⟩ := vote_returns ho (tallied_of_run hr) fun hv => by
          have hcons : v :: timely names.length ws = timely names.length (v :: ws) := by
            rw [timely, timely, List.filter_cons_of_pos (by simpa using hv)]
          rw [acceptedVotes_of_outcomes hout, hcons]
          exact (Preda.Ballot.weigh_sublist weight _ (hws.sublist.filter _)).trans_lt hfit
        obtain ⟨rfl, rfl⟩ := hs.of_call_ok hk
        exact ⟨ho', by rw [hvalue, hout]; rfl⟩

/-- What a session returns and ends in. -/
theorem session_result (hr : machine.Run BallotOnly ⟨deployed weight, 0⟩ h c)
    (hfit : weigh weight (fun _ => True) (timely names.length vs) < 2 ^ 64)
    (hcalls : calls h = sessionCalls names a b vs) :
    outcomes h = (.finalize b, .ok .none) :: castOutcomes names a vs ∧
      c.state.proposals.map Proposal.name = names ∧
      (∀ i, totalAt c.state.proposals i = tally weight i (timely names.length vs)) ∧
      c.state.lastResult.topVoted = topVoted c.state.proposals "" := by
  cases hr with
  | nil => cases hcalls
  | @step h c c' e hr hs hg =>
    cases e with
    | deliver m r => exact m.elim
    | call m r =>
      obtain ⟨rfl, hbefore⟩ := List.cons.inj hcalls
      obtain ⟨ho, hout⟩ := outcomes_of_votes hr hfit List.suffix_rfl hbefore
      have ht := tallied_of_run hr
      have hheld : ∀ i, totalAt c.state.proposals i + c.state.votedWeights.getD i 0 =
          tally weight i (timely names.length vs) := by
        intro i
        rw [ht.getD_eq, acceptedVotes_of_outcomes hout, ho.proposals,
          ← List.nil_append (names.map _), Preda.Ballot.totalAt_append_zero,
          Preda.Ballot.totalAt_nil, Nat.zero_add]
      obtain ⟨ps, hps, htot⟩ := Preda.Ballot.exists_addShardVotes .trap ht.length.le fun i => by
        rw [hheld]
        exact (Preda.Ballot.tally_le weight i _).trans_lt hfit
      have hk : machine.call (.finalize b) c.state = .ok ⟨{ c.state with
          proposals := ps
          lastResult := ⟨topVoted ps c.state.lastResult.topVoted, c.state.currentCase⟩ },
            .none, []⟩ := by
        rw [show machine.call (.finalize b) c.state = finalize c.state from rfl, finalize, if_pos,
          _finalize, hps]
        · rfl
        · rw [ho.currentCase, ho.lastResult]
          exact Nat.one_pos
      obtain ⟨rfl, rfl⟩ := hs.of_call_ok hk
      refine ⟨by rw [outcomes_cons_call, hout], ?_, fun i => ?_, ?_⟩
      · rw [Preda.Ballot.map_name_of_addShardVotes hps, ho.proposals, List.map_map]
        exact List.map_id names
      · rw [← hheld]
        exact htot i
      · rw [ho.lastResult]

end Session

/-! ### The comparison -/

/-- **The sharded ballot equals the sequential one.** Take any list of names, weights that sum below
`2 ^ 64`, and any list of votes in which no address votes twice, for any indices and case numbers.
On `2 ^ k` shards with `k ≤ 31` and any placement of the addresses, the votes have a session on the
PREDA ballot, in any order, and one on the Sei ballot: `init` is executed, the votes are cast, and
`finalize` is called. Whatever the order in which the PREDA relays are delivered, each vote returns
the same on both, and both end with the same proposals and totals and the same `topVoted`. -/
theorem parallel_eq_sequential [DecidableEq A] [Fintype A] {X : Chain A} (hk : X.shardOrder ≤ 31)
    {weight : A → ℕ} (hw : ∑ a, weight a < 2 ^ 64) (names : List String) (a b : A)
    {vs vs' : List (Vote A)} (hdistinct : (vs.map Vote.voter).Nodup) (hperm : vs'.Perm vs) :
    (∃ h c, Preda.Ballot.Session X weight names a b vs' h c) ∧
    (∃ h' c', machine.Run BallotOnly ⟨deployed weight, 0⟩ h' c' ∧
      calls h' = sessionCalls names a b vs) ∧
    ∀ h c h' c', Preda.Ballot.Session X weight names a b vs' h c →
      machine.Run BallotOnly ⟨deployed weight, 0⟩ h' c' → calls h' = sessionCalls names a b vs →
      (∀ v ∈ vs, ∃ r, (v.call, .ok (some r)) ∈ outcomes h ∧
        (castVote v, .ok (.bool r)) ∈ outcomes h') ∧
      c.state.proposals = c'.state.proposals ∧
      c.state.lastResult.topVoted = c'.state.lastResult.topVoted := by
  have hdistinct' : (vs'.map Vote.voter).Nodup := (hperm.map _).nodup_iff.mpr hdistinct
  have hcounted : Preda.Ballot.counted names.length vs' = timely names.length vs' :=
    Preda.Ballot.counted_of_nodup hdistinct'
  have hfit : weigh weight (fun _ => True) (timely names.length vs) < 2 ^ 64 := by
    refine (Preda.Ballot.weigh_le_sum weight ?_).trans_lt hw
    exact hdistinct.sublist (List.filter_sublist.map _)
  have hfit' : weigh weight (fun _ => True) (Preda.Ballot.counted names.length vs') < 2 ^ 64 := by
    rw [hcounted]
    refine (Preda.Ballot.weigh_le_sum weight ?_).trans_lt hw
    exact hdistinct'.sublist (List.filter_sublist.map _)
  refine ⟨Preda.Ballot.Session.exists_session X weight names a b vs', ?_, ?_⟩
  · obtain ⟨h', c', hr', hcalls⟩ := machine.exists_run (deployed weight) (sessionCalls names a b vs)
    refine ⟨h', c', (hr'.along ⟨[], hcalls⟩).mono fun h c e he => ?_, hcalls⟩
    cases e with
    | call k r => exact isBallot_of_mem (he.2.subset List.mem_cons_self)
    | deliver m r => trivial
  · intro h c h' c' hs hr' hcalls
    obtain ⟨hout', hnames', htot', htop'⟩ := session_result hr' hfit hcalls
    have hps : c.state.proposals = c'.state.proposals := by
      refine Preda.Ballot.proposals_ext (by rw [hs.map_name_eq, hnames']) fun i => ?_
      rw [hs.totalAt_eq hfit', htot', hcounted]
      exact Preda.Ballot.tally_perm weight (hperm.filter _) i
    refine ⟨fun v hv => ⟨decide (Timely names.length v), ?_, ?_⟩, hps, ?_⟩
    · rw [hs.outcomes_eq hfit', Preda.Ballot.castOutcomes,
        Preda.Ballot.verdicts_of_nodup hdistinct']
      refine List.mem_cons_of_mem _ (List.mem_append_left _ ?_)
      have hv' : v ∈ vs' := hperm.mem_iff.mpr hv
      exact List.mem_map_of_mem (f := Vote.outcome) (List.mem_map_of_mem hv')
    · rw [hout', castOutcomes]
      refine List.mem_cons_of_mem _ (List.mem_append_left _ ?_)
      exact List.mem_map_of_mem hv
    · rw [hs.topVoted_eq hfit' hk, htop', hps]

/-- Two addresses on two shards, one of which votes for a proposal that is not there. -/
theorem parallel_eq_sequential_twoShards : ∃ h c h' c',
    Preda.Ballot.Session (Preda.twoShards .trap) (fun a => a.val + 1) ["Spring", "Yarn"] 0 1
      [⟨0, 1, 1⟩, ⟨1, 7, 1⟩] h c ∧
    machine.Run BallotOnly ⟨deployed fun a : Fin 2 => a.val + 1, 0⟩ h' c' ∧
    calls h' = sessionCalls ["Spring", "Yarn"] 0 1 [⟨1, 7, 1⟩, ⟨0, 1, 1⟩] ∧
    c.state.proposals = c'.state.proposals ∧
    c.state.lastResult.topVoted = c'.state.lastResult.topVoted := by
  obtain ⟨⟨h, c, hs⟩, ⟨h', c', hr', hcalls⟩, hsame⟩ :=
    @parallel_eq_sequential (Fin 2) _ _ (Preda.twoShards .trap) (by decide) (fun a => a.val + 1)
      (by decide) ["Spring", "Yarn"] 0 1 [⟨1, 7, 1⟩, ⟨0, 1, 1⟩] [⟨0, 1, 1⟩, ⟨1, 7, 1⟩] (by decide)
      (by decide)
  exact ⟨h, c, h', c', hs, hr', hcalls, (hsame h c h' c' hs hr' hcalls).2⟩

end Ballot

end Sei

end RelayContracts
