import RelayContracts.Preda.BallotVotes
import RelayContracts.Synchronous

/-!
# The Sei Ballot contract

The contract of `Ballot.sol` among the Sei contracts: the ballot without shards, one array of
weights that every vote adds to. The structs and the two loops of `_finalize` are those of the PREDA
contract, so its `Proposal`, `addShardVotes` and `topVoted` serve here too; the field called `case`
there is called `caseId` here.

`vote` asks that the case is above the address's `voted_case`, but nothing other than `set` ever
writes `voted_case`, so the question does not keep an address from voting again.
`one_vote_per_case_iff` says what has to be true of the list of calls for the one-vote rule to hold:
that no address casts two votes in one case. Which votes are cast is read off the list, by counting
the `init` calls and the names before a vote.

## Main definitions

* `Ballot.State` and the functions of the contract
* `Ballot.machine` — the contract as a machine without relays
* `Ballot.votesCast` — the votes of a list of calls for the open case and a proposal there is
-/

namespace RelayContracts

namespace Sei

namespace Ballot

open RelayMachine
open Preda (addAt length_of_addAt getD_of_addAt)
open Preda.Ballot (Proposal BallotResult Vote tally addShardVotes topVoted)

/-- The state of the contract. -/
structure State (A : Type) where
  /-- `uint32 current_case`. -/
  currentCase : ℕ
  /-- `Proposal[] proposals`. -/
  proposals : List Proposal
  /-- `BallotResult last_result`. -/
  lastResult : BallotResult
  /-- `uint64[] votedWeights`. -/
  votedWeights : List ℕ
  /-- `mapping(address=>uint64) weight`. -/
  weight : A → ℕ
  /-- `mapping(address=>uint32) voted_case`. -/
  votedCase : A → ℕ

/-- The public functions. The `_scope` of `init` and `finalize` is not read. -/
inductive Call (A : Type) where
  /-- `set(_scope, _weight, _voted_case)`. -/
  | set (scope : A) (weight votedCase : ℕ)
  /-- `init(_scope, names)`. -/
  | init (scope : A) (names : List String)
  /-- `_init(names)`. -/
  | _init (names : List String)
  /-- `_initShardVotedWeights()`. -/
  | _initShardVotedWeights
  /-- `vote(_scope, proposal_index, case_num)`. -/
  | vote (scope : A) (proposalIndex caseNum : ℕ)
  /-- `finalize(_scope)`. -/
  | finalize (scope : A)
  /-- `_finalize(shardVotes)`. -/
  | _finalize (shardVotes : List ℕ)
  deriving DecidableEq, Repr

/-- What a function returns. -/
inductive Value where
  /-- Nothing. -/
  | none
  /-- A `bool`. -/
  | bool (b : Bool)
  /-- A `uint32`. -/
  | uint32 (n : ℕ)
  deriving DecidableEq, Repr

variable {A : Type}

/-- The state a deployment starts from. -/
def empty : State A := ⟨0, [], ⟨"", 0⟩, [], fun _ => 0, fun _ => 0⟩

/-- The state after `set` has given each address its weight and the `voted_case` 0. -/
def deployed (weight : A → ℕ) : State A := { empty with weight }

/-! ### The functions -/

/-- `_initShardVotedWeights()`: the loop pushes zeros until there is one entry per proposal. -/
def _initShardVotedWeights (s : State A) : State A :=
  { s with
    votedWeights := s.votedWeights ++
      List.replicate (s.proposals.length - s.votedWeights.length) 0 }

/-- `_init(names)`. -/
def _init (names : List String) (s : State A) : Except Fault (State A) := do
  -- the loop pushes one proposal per name
  let proposals := names.foldl (fun ps name => ps ++ [⟨name, 0⟩]) s.proposals
  let currentCase ← addU .trap 32 s.currentCase 1
  .ok (_initShardVotedWeights { s with proposals, currentCase, lastResult := ⟨"", 0⟩ })

/-- `init(_scope, names)`. -/
def init (names : List String) (s : State A) : Except Fault (Effect (State A) Empty Value) := do
  let s ← _init names s
  .ok ⟨s, .uint32 s.currentCase, []⟩

/-- `vote(_scope, proposal_index, case_num)`. -/
def vote (scope : A) (proposalIndex caseNum : ℕ) (s : State A) :
    Except Fault (Effect (State A) Empty Value) :=
  if caseNum = s.currentCase ∧ s.votedCase scope < caseNum ∧
      proposalIndex < s.proposals.length then do
    let votedWeights ← addAt .trap 64 s.votedWeights proposalIndex (s.weight scope)
    .ok ⟨{ s with votedWeights }, .bool true, []⟩
  else .ok ⟨s, .bool false, []⟩

/-- `_finalize(shardVotes)`. -/
def _finalize (shardVotes : List ℕ) (s : State A) : Except Fault (State A) := do
  let proposals ← addShardVotes .trap s.proposals shardVotes
  .ok { s with
    proposals
    lastResult := ⟨topVoted proposals s.lastResult.topVoted, s.currentCase⟩ }

/-- `finalize(_scope)`. -/
def finalize (s : State A) : Except Fault (Effect (State A) Empty Value) :=
  if s.lastResult.caseNum < s.currentCase then do
    let s ← _finalize s.votedWeights s
    .ok ⟨s, .none, []⟩
  else .error .assertion

variable [DecidableEq A]

/-- `set(_scope, _weight, _voted_case)`. -/
def set (scope : A) (weight votedCase : ℕ) (s : State A) :
    Except Fault (Effect (State A) Empty Value) :=
  .ok ⟨{ s with
    weight := Function.update s.weight scope weight
    votedCase := Function.update s.votedCase scope votedCase }, .bool true, []⟩

/-- The contract as a machine without relays. -/
def machine : Machine (State A) (Call A) Empty Value Fault where
  call
    | .set scope weight votedCase => set scope weight votedCase
    | .init _ names => init names
    | ._init names => fun s => do
      let s ← _init names s
      .ok ⟨s, .none, []⟩
    | ._initShardVotedWeights => fun s => .ok ⟨_initShardVotedWeights s, .none, []⟩
    | .vote scope proposalIndex caseNum => vote scope proposalIndex caseNum
    | .finalize _ => finalize
    | ._finalize shardVotes => fun s => do
      let s ← _finalize shardVotes s
      .ok ⟨s, .none, []⟩
  relay m := m.elim

/-- Calling `set` for every address deploys the weights. -/
theorem exists_run_deployed [Fintype A] (weight : A → ℕ) :
    ∃ h, machine.Run Anything ⟨empty, 0⟩ h ⟨deployed weight, 0⟩ ∧
      calls h = Finset.univ.toList.map fun a => .set a (weight a) 0 := by
  suffices hall : ∀ as : List A, ∃ h, machine.Run Anything ⟨empty, 0⟩ h
      ⟨deployed fun a => if a ∈ as then weight a else 0, 0⟩ ∧
      calls h = as.map fun a => .set a (weight a) 0 by
    simpa using hall Finset.univ.toList
  intro as
  induction as with
  | nil => exact ⟨[], by simpa using .nil, rfl⟩
  | cons x as ih =>
    obtain ⟨h, hr, hcalls⟩ := ih
    refine ⟨.call (.set x (weight x) 0) (.ok (.bool true)) :: h, ?_, by simp [hcalls]⟩
    have hweight : Function.update (fun a => if a ∈ as then weight a else 0) x (weight x) =
        fun a => if a ∈ x :: as then weight a else 0 := by
      funext a
      by_cases ha : a = x
      · simp [ha]
      · simp [ha]
    have hk : machine.call (.set x (weight x) 0)
        (deployed fun a => if a ∈ as then weight a else 0) =
        .ok ⟨deployed fun a => if a ∈ x :: as then weight a else 0, .bool true, []⟩ := by
      simp only [machine, set, deployed, empty, hweight, Function.update_eq_self]
    simpa using hr.step (.callOk hk) trivial

/-! ### What a successful call did -/

/-- The calls of a ballot once it is deployed. -/
def Call.isBallot : Call A → Bool
  | .init _ _ | .vote _ _ _ | .finalize _ => true
  | _ => false

/-- What a successful call of a ballot did, at a state `s`. -/
inductive Called (s : State A) : Call A → Effect (State A) Empty Value → Prop
  /-- `init` opened a case. -/
  | init {a : A} {names : List String} (hcase : s.currentCase + 1 < 2 ^ 32) :
      Called s (.init a names) ⟨_initShardVotedWeights { s with
        proposals := s.proposals ++ names.map fun name => ⟨name, 0⟩
        currentCase := s.currentCase + 1
        lastResult := ⟨"", 0⟩ }, .uint32 (s.currentCase + 1), []⟩
  /-- `vote` accepted. -/
  | accept {a : A} {i n : ℕ} {tallied : List ℕ} (hcase : n = s.currentCase)
      (hvoted : s.votedCase a < n) (hi : i < s.proposals.length)
      (hadd : addAt .trap 64 s.votedWeights i (s.weight a) = .ok tallied) :
      Called s (.vote a i n) ⟨{ s with votedWeights := tallied }, .bool true, []⟩
  /-- `vote` rejected, and changed nothing. -/
  | reject {a : A} {i n : ℕ}
      (hno : ¬ (n = s.currentCase ∧ s.votedCase a < n ∧ i < s.proposals.length)) :
      Called s (.vote a i n) ⟨s, .bool false, []⟩
  /-- `finalize` added the weights to the totals and decided the result. -/
  | finalize {a : A} {ps : List Proposal} (hopen : s.lastResult.caseNum < s.currentCase)
      (hps : addShardVotes .trap s.proposals s.votedWeights = .ok ps) :
      Called s (.finalize a) ⟨{ s with
        proposals := ps
        lastResult := ⟨topVoted ps s.lastResult.topVoted, s.currentCase⟩ }, .none, []⟩

theorem called_of_ok {s : State A} {k : Call A} {eff : Effect (State A) Empty Value}
    (hballot : k.isBallot) (h : machine.call k s = .ok eff) : Called s k eff := by
  cases k with
  | init a names =>
    obtain ⟨s', hs', h⟩ := exists_of_bind_eq_ok (show init names s = .ok eff from h)
    obtain ⟨n, hn, hs'⟩ := exists_of_bind_eq_ok hs'
    obtain ⟨hfit, rfl⟩ := addU_trap_eq_ok.mp hn
    rw [Preda.Ballot.foldl_push] at hs'
    cases hs'
    cases h
    exact .init hfit
  | vote a i n =>
    have h : vote a i n s = .ok eff := h
    rw [vote] at h
    split at h
    · rename_i hacc
      obtain ⟨tallied, hadd, h⟩ := exists_of_bind_eq_ok h
      cases h
      exact .accept hacc.1 hacc.2.1 hacc.2.2 hadd
    · cases h
      exact .reject ‹_›
  | finalize a =>
    obtain ⟨hopen, h⟩ := of_require_eq_ok (show finalize s = .ok eff from h)
    obtain ⟨s', hs', h⟩ := exists_of_bind_eq_ok h
    obtain ⟨ps, hps, hs'⟩ := exists_of_bind_eq_ok hs'
    cases hs'
    cases h
    exact .finalize hopen hps
  | set | _init | _initShardVotedWeights | _finalize => cases hballot

/-! ### Runs of a ballot -/

/-- The events of a run of the contract, latest first. -/
abbrev History (A : Type) := List (Event (Call A) Empty Value Fault)

/-- Only `init`, `vote` and `finalize` are called. -/
def BallotOnly (_ : History A) (_ : Config (State A) Empty) :
    Event (Call A) Empty Value Fault → Prop
  | .call k _ => k.isBallot
  | .deliver _ _ => True

instance (h : History A) (c : Config (State A) Empty) (e : Event (Call A) Empty Value Fault) :
    Decidable (BallotOnly h c e) :=
  match e with
  | .call k _ => inferInstanceAs (Decidable (k.isBallot = true))
  | .deliver _ _ => isTrue trivial

/-- The vote an event accepted, if it is a vote call that returned true. -/
def accepted? : Event (Call A) Empty Value Fault → Option (Vote A)
  | .call (.vote a i n) (.ok (.bool true)) => some ⟨a, i, n⟩
  | _ => none

/-- The votes a history accepted, latest first. -/
def acceptedVotes (h : History A) : List (Vote A) := h.filterMap accepted?

omit [DecidableEq A] in
@[simp] theorem acceptedVotes_accept (a : A) (i n : ℕ) (h : History A) :
    acceptedVotes (.call (.vote a i n) (.ok (.bool true)) :: h) = ⟨a, i, n⟩ :: acceptedVotes h :=
  rfl

omit [DecidableEq A] in
theorem acceptedVotes_other {e : Event (Call A) Empty Value Fault} (he : accepted? e = none)
    (h : History A) : acceptedVotes (e :: h) = acceptedVotes h := List.filterMap_cons_none he

/-- What the state knows of a history. -/
structure Tallied (weight : A → ℕ) (h : History A) (s : State A) : Prop where
  /-- There is one entry per proposal. -/
  length : s.votedWeights.length = s.proposals.length
  /-- The weights are never written. -/
  weight_eq : s.weight = weight
  /-- Nor is `voted_case`. -/
  votedCase_eq : ∀ a, s.votedCase a = 0
  /-- The entries hold the accepted votes of all cases. -/
  getD_eq : ∀ i, s.votedWeights.getD i 0 = tally weight i (acceptedVotes h)
  /-- A vote was accepted in a case that has been opened. -/
  caseNum : ∀ v ∈ acceptedVotes h, 0 < v.caseNum ∧ v.caseNum ≤ s.currentCase

section Runs

variable {weight : A → ℕ} {h : History A} {c : Config (State A) Empty}

omit [DecidableEq A] in
theorem Tallied.call {s : State A} {k : Call A} {eff : Effect (State A) Empty Value}
    (ht : Tallied weight h s) (hk : Called s k eff) :
    Tallied weight (.call k (.ok eff.value) :: h) eff.state := by
  cases hk with
  | @init a names hcase =>
    have hlen : s.votedWeights.length ≤
        (s.proposals ++ names.map fun name => (⟨name, 0⟩ : Proposal)).length := by
      rw [ht.length, List.length_append]
      exact Nat.le_add_right _ _
    refine ⟨?_, ht.weight_eq, ht.votedCase_eq, fun i => ?_, fun v hv => ?_⟩
    · simp only [_initShardVotedWeights, List.length_append, List.length_replicate] at hlen ⊢
      omega
    · rw [_initShardVotedWeights, acceptedVotes_other rfl, ← ht.getD_eq,
        ← Preda.getD_setLength 0 hlen, Preda.setLength, List.take_of_length_le hlen]
    · exact (ht.caseNum v hv).imp_right Nat.le_succ_of_le
  | @accept a i n tallied hcase hvoted hi hadd =>
    refine ⟨(length_of_addAt hadd).trans ht.length, ht.weight_eq, ht.votedCase_eq, fun j => ?_, ?_⟩
    · rw [getD_of_addAt hadd (Preda.lt_of_addAt_trap hadd), acceptedVotes_accept,
        Preda.Ballot.tally_cons, ht.getD_eq, ht.weight_eq, Nat.add_comm]
      simp only [eq_comm]
    · rw [acceptedVotes_accept, List.forall_mem_cons]
      exact ⟨⟨Nat.zero_lt_of_lt hvoted, hcase.le⟩, ht.caseNum⟩
  | reject => exact ⟨ht.length, ht.weight_eq, ht.votedCase_eq, ht.getD_eq, ht.caseNum⟩
  | finalize hopen hps =>
    exact ⟨ht.length.trans (Preda.Ballot.length_of_addShardVotes hps).symm, ht.weight_eq,
      ht.votedCase_eq, ht.getD_eq, ht.caseNum⟩

theorem tallied_of_run (hr : machine.Run BallotOnly ⟨deployed weight, 0⟩ h c) :
    Tallied weight h c.state := by
  refine hr.call_invariant (I := fun h c => Tallied weight h c.state)
    ⟨rfl, rfl, fun _ => rfl, fun _ => rfl, fun _ hv => absurd hv List.not_mem_nil⟩ ?_ ?_
  · intro h c k eff _ ih hballot hk
    exact ih.call (called_of_ok hballot hk)
  · intro h c k f _ ih _ _
    have hother : acceptedVotes (.call k (.error f) :: h) = acceptedVotes h :=
      acceptedVotes_other (by cases k <;> rfl) h
    exact ⟨ih.length, ih.weight_eq, ih.votedCase_eq, hother ▸ ih.getD_eq, hother ▸ ih.caseNum⟩

/-! ### The votes of a list of calls -/

/-- How many cases a list of calls, latest first, has tried to open. -/
def inits : List (Call A) → ℕ
  | [] => 0
  | .init _ _ :: ks => inits ks + 1
  | _ :: ks => inits ks

/-- How many names the calls of a list have given to `init`. -/
def namesGiven : List (Call A) → ℕ
  | [] => 0
  | .init _ names :: ks => namesGiven ks + names.length
  | _ :: ks => namesGiven ks

/-- The votes of a list of calls, latest first, that are for the case opened last and for one of the
names given so far. The number of a case is a `uint32`, so there is no case after `2 ^ 32 - 1`. -/
def votesCast : List (Call A) → List (Vote A)
  | [] => []
  | .vote a i n :: ks =>
    if n = min (inits ks) (2 ^ 32 - 1) ∧ i < namesGiven ks then ⟨a, i, n⟩ :: votesCast ks
    else votesCast ks
  | _ :: ks => votesCast ks

omit [DecidableEq A] in
theorem inits_pos_of_namesGiven {ks : List (Call A)} (hnames : 0 < namesGiven ks) :
    0 < inits ks := by
  induction ks with
  | nil => exact hnames
  | cons k ks ih =>
    cases k with
    | init a names => exact Nat.succ_pos _
    | _ => exact ih hnames

omit [DecidableEq A] in
theorem inits_le_cons (k : Call A) (ks : List (Call A)) : inits ks ≤ inits (k :: ks) := by
  cases k with
  | init a names => exact Nat.le_succ _
  | _ => exact Nat.le_refl _

omit [DecidableEq A] in
theorem votesCast_sublist_cons (k : Call A) (ks : List (Call A)) :
    (votesCast ks).Sublist (votesCast (k :: ks)) := by
  cases k with
  | vote a i n =>
    rw [votesCast]
    split
    · exact List.sublist_cons_self _ _
    · exact List.Sublist.refl _
  | _ => exact List.Sublist.refl _

/-- What the state knows of a list of calls. -/
structure Opened (ks : List (Call A)) (s : State A) : Prop where
  /-- Every `init` opens the next case, as far as a `uint32` counts. -/
  currentCase_eq : s.currentCase = min (inits ks) (2 ^ 32 - 1)
  /-- A proposal is a name that was given. -/
  length_le : s.proposals.length ≤ namesGiven ks
  /-- While the cases can be counted, every name that was given is a proposal. -/
  length_eq : inits ks < 2 ^ 32 → s.proposals.length = namesGiven ks

omit [DecidableEq A] in
theorem Opened.call {ks : List (Call A)} {s : State A} {k : Call A}
    {eff : Effect (State A) Empty Value} (ho : Opened ks s) (hk : Called s k eff) :
    Opened (k :: ks) eff.state := by
  cases hk with
  | @init a names hcase =>
    obtain ⟨hcurrent, hle, heq⟩ := ho
    refine ⟨?_, ?_, fun hlt => ?_⟩
    · simp only [_initShardVotedWeights, inits]
      omega
    · simp only [_initShardVotedWeights, List.length_append, List.length_map, namesGiven]
      omega
    · simp only [inits] at hlt
      simp only [_initShardVotedWeights, List.length_append, List.length_map, namesGiven]
      rw [heq (by omega)]
  | accept => exact ⟨ho.currentCase_eq, ho.length_le, ho.length_eq⟩
  | reject => exact ⟨ho.currentCase_eq, ho.length_le, ho.length_eq⟩
  | finalize hopen hps =>
    have hlength := Preda.Ballot.length_of_addShardVotes hps
    exact ⟨ho.currentCase_eq, hlength ▸ ho.length_le, hlength ▸ ho.length_eq⟩

/-- An `init` that fails finds no number for the next case. -/
theorem Opened.call_error {ks : List (Call A)} {s : State A} {k : Call A} {f : Fault}
    (ho : Opened ks s) (hballot : k.isBallot) (hk : machine.call k s = .error f) :
    Opened (k :: ks) s := by
  cases k with
  | init a names =>
    obtain ⟨hcurrent, hle, heq⟩ := ho
    have hfull : 2 ^ 32 ≤ s.currentCase + 1 := by
      by_contra hlt
      have hok : addU .trap 32 s.currentCase 1 = .ok (s.currentCase + 1) := addU_of_lt (by omega)
      have hinit : machine.call (.init a names) s = init names s := rfl
      rw [hinit, init, _init, hok] at hk
      cases hk
    refine ⟨?_, ?_, fun hlt => ?_⟩
    · simp only [inits]
      omega
    · simp only [namesGiven]
      omega
    · simp only [inits] at hlt
      omega
  | vote => exact ⟨ho.currentCase_eq, ho.length_le, ho.length_eq⟩
  | finalize => exact ⟨ho.currentCase_eq, ho.length_le, ho.length_eq⟩
  | set | _init | _initShardVotedWeights | _finalize => cases hballot

theorem opened_of_run (hr : machine.Run BallotOnly ⟨deployed weight, 0⟩ h c) :
    Opened (calls h) c.state := by
  refine hr.call_invariant (I := fun h c => Opened (calls h) c.state)
    ⟨rfl, Nat.le_refl 0, fun _ => rfl⟩ ?_ ?_
  · intro h c k eff _ ih hballot hk
    exact ih.call (called_of_ok hballot hk)
  · intro h c k f _ ih hballot hk
    exact ih.call_error hballot hk

/-! ### Which votes are accepted -/

/-- A vote that is accepted was cast. -/
theorem acceptedVotes_sublist (hr : machine.Run BallotOnly ⟨deployed weight, 0⟩ h c) :
    (acceptedVotes h).Sublist (votesCast (calls h)) := by
  refine hr.call_invariant (I := fun h _ => (acceptedVotes h).Sublist (votesCast (calls h)))
    (List.Sublist.refl _) ?_ ?_
  · intro h c k eff hr ih hballot hk
    have ho := opened_of_run hr
    rw [calls_cons_call]
    cases called_of_ok hballot hk with
    | init => exact ih
    | accept hcase hvoted hi hadd =>
      rw [acceptedVotes_accept, votesCast,
        if_pos ⟨hcase.trans ho.currentCase_eq, hi.trans_le ho.length_le⟩]
      exact ih.cons_cons _
    | reject => exact ih.trans (votesCast_sublist_cons _ _)
    | finalize => exact ih
  · intro h c k f hr ih hballot hk
    rw [acceptedVotes_other (by cases k <;> rfl), calls_cons_call]
    exact ih.trans (votesCast_sublist_cons k _)

theorem exists_vote {s : State A} {a : A} {i n : ℕ} (hcase : n = s.currentCase)
    (hvoted : s.votedCase a < n) (hi : i < s.proposals.length)
    (hfit : s.votedWeights.getD i 0 + s.weight a < 2 ^ 64)
    (hlen : s.votedWeights.length = s.proposals.length) :
    ∃ eff, machine.call (.vote a i n) s = .ok eff ∧ eff.value = .bool true := by
  obtain ⟨ys, hys⟩ := Preda.exists_addAt (p := .trap) (hlen ▸ hi) hfit
  exact ⟨_, by rw [show machine.call (.vote a i n) s = vote a i n s from rfl, vote,
    if_pos ⟨hcase, hvoted, hi⟩, hys, ok_bind], rfl⟩

/-- While the cases can be counted and the sums fit, a vote that is cast is accepted. -/
theorem exists_vote_of_cast (hr : machine.Run BallotOnly ⟨deployed weight, 0⟩ h c)
    (hinits : inits (calls h) < 2 ^ 32) {a : A} {i n : ℕ}
    (hcase : n = min (inits (calls h)) (2 ^ 32 - 1)) (hi : i < namesGiven (calls h))
    (hroom : tally weight i (votesCast (.vote a i n :: calls h)) < 2 ^ 64) :
    ∃ eff, machine.call (.vote a i n) c.state = .ok eff ∧ eff.value = .bool true := by
  have ht := tallied_of_run hr
  have ho := opened_of_run hr
  have hpos : 0 < inits (calls h) := inits_pos_of_namesGiven (Nat.zero_lt_of_lt hi)
  have hle : tally weight i (acceptedVotes h) ≤ tally weight i (votesCast (calls h)) :=
    Preda.Ballot.weigh_sublist weight _ (acceptedVotes_sublist hr)
  rw [votesCast, if_pos ⟨hcase, hi⟩, Preda.Ballot.tally_cons, if_pos rfl] at hroom
  refine exists_vote (hcase.trans ho.currentCase_eq.symm) ?_ ?_ ?_ ht.length
  · rw [ht.votedCase_eq]
    omega
  · rwa [ho.length_eq hinits]
  · rw [ht.getD_eq, ht.weight_eq, Nat.add_comm]
    exact (Nat.add_le_add_left hle (weight a)).trans_lt hroom

theorem votesCast_sublist (hr : machine.Run BallotOnly ⟨deployed weight, 0⟩ h c)
    (hinits : inits (calls h) < 2 ^ 32)
    (hroom : ∀ i, tally weight i (votesCast (calls h)) < 2 ^ 64) :
    (votesCast (calls h)).Sublist (acceptedVotes h) := by
  revert hinits hroom
  refine hr.call_invariant (I := fun h _ => inits (calls h) < 2 ^ 32 →
    (∀ i, tally weight i (votesCast (calls h)) < 2 ^ 64) →
      (votesCast (calls h)).Sublist (acceptedVotes h)) (fun _ _ => List.Sublist.refl _) ?_ ?_
  · intro h c k eff hr ih hballot hk hinits hroom
    have hinits' : inits (calls h) < 2 ^ 32 := (inits_le_cons k _).trans_lt hinits
    have hprev := ih hinits' fun i => (Preda.Ballot.weigh_sublist weight _
      (votesCast_sublist_cons k _)).trans_lt (hroom i)
    rw [calls_cons_call] at hroom ⊢
    cases called_of_ok hballot hk with
    | init => exact hprev
    | accept hcase hvoted hi hadd =>
      rw [acceptedVotes_accept, votesCast]
      split
      · exact hprev.cons_cons _
      · exact hprev.cons _
    | reject hno =>
      rw [acceptedVotes_other rfl, votesCast, if_neg]
      · exact hprev
      · rintro ⟨hcase, hi⟩
        obtain ⟨eff, hok, hvalue⟩ := exists_vote_of_cast hr hinits' hcase hi (hroom _)
        cases hk.symm.trans hok
        cases hvalue
    | finalize => exact hprev
  · intro h c k f hr ih hballot hk hinits hroom
    have hinits' : inits (calls h) < 2 ^ 32 := (inits_le_cons k _).trans_lt hinits
    have hprev := ih hinits' fun i => (Preda.Ballot.weigh_sublist weight _
      (votesCast_sublist_cons k _)).trans_lt (hroom i)
    rw [acceptedVotes_other (by cases k <;> rfl)]
    rw [calls_cons_call] at hroom ⊢
    cases k with
    | vote a i n =>
      rw [votesCast, if_neg]
      · exact hprev
      · rintro ⟨hcase, hi⟩
        obtain ⟨eff, hok, -⟩ := exists_vote_of_cast hr hinits' hcase hi (hroom _)
        cases hk.symm.trans hok
    | _ => exact hprev

/-! ### One vote per address and case -/

/-- The one-vote rule: of the votes of an address for a case at most one is accepted, and while
case 1 is open an entry of `votedWeights` is at most the weight of the distinct addresses that voted
for it. -/
def OneVotePerCase [Fintype A] (weight : A → ℕ) (h : History A) (s : State A) : Prop :=
  (∀ a n, (acceptedVotes h).countP (fun v => v.voter = a ∧ v.caseNum = n) ≤ 1) ∧
    (s.currentCase = 1 → ∀ i, s.votedWeights.getD i 0 ≤
      ∑ a with ∃ v ∈ acceptedVotes h, v.voter = a ∧ v.proposalIndex = i, weight a)

omit [DecidableEq A] in
/-- While case 1 is the only one, one vote per address and case is one vote per address. -/
theorem Tallied.voters_nodup {s : State A} (ht : Tallied weight h s) (hone : s.currentCase = 1)
    (hvotes : ((acceptedVotes h).map fun v => (v.voter, v.caseNum)).Nodup) :
    ((acceptedVotes h).map Vote.voter).Nodup := by
  rw [List.nodup_iff_pairwise_ne, List.pairwise_map] at hvotes ⊢
  refine hvotes.imp_of_mem fun hv hw hne heq => hne ?_
  have := ht.caseNum _ hv
  have := ht.caseNum _ hw
  exact Prod.ext heq (by omega)

theorem oneVotePerCase_iff_nodup [Fintype A]
    (hr : machine.Run BallotOnly ⟨deployed weight, 0⟩ h c) :
    OneVotePerCase weight h c.state ↔
      ((acceptedVotes h).map fun v => (v.voter, v.caseNum)).Nodup := by
  have ht := tallied_of_run hr
  have hcount : (∀ a n, (acceptedVotes h).countP (fun v => v.voter = a ∧ v.caseNum = n) ≤ 1) ↔
      ((acceptedVotes h).map fun v => (v.voter, v.caseNum)).Nodup := by
    rw [List.nodup_iff_count_le_one, Prod.forall]
    refine forall₂_congr fun a n => ?_
    rw [List.count, List.countP_map]
    refine iff_of_eq (congrArg (· ≤ 1) (List.countP_congr fun v _ => ?_))
    simp
  rw [OneVotePerCase, hcount]
  refine and_iff_left_of_imp fun hvotes hone i => ?_
  rw [ht.getD_eq, Preda.Ballot.tally_eq_sum weight (ht.voters_nodup hone hvotes)]

/-- **When an address votes once in a case.** Take any sequence of `init`, `vote` and `finalize`
calls after each address was given its weight and the `voted_case` 0. The one-vote rule holds if no
address casts two votes for a case: calls with the number of `init` calls before as the case, and
with an index below the number of names given before. While the number of a case fits a `uint32` and
the weights of the votes cast for an index a `uint64`, it holds in no other case. -/
theorem one_vote_per_case_iff [Fintype A]
    (hr : machine.Run BallotOnly ⟨deployed weight, 0⟩ h c) :
    (((votesCast (calls h)).map fun v => (v.voter, v.caseNum)).Nodup →
      OneVotePerCase weight h c.state) ∧
    (inits (calls h) < 2 ^ 32 → (∀ i, tally weight i (votesCast (calls h)) < 2 ^ 64) →
      (OneVotePerCase weight h c.state ↔
        ((votesCast (calls h)).map fun v => (v.voter, v.caseNum)).Nodup)) := by
  have hsublist := acceptedVotes_sublist hr
  rw [oneVotePerCase_iff_nodup hr]
  refine ⟨fun hnodup => hnodup.sublist (hsublist.map _), fun hinits hroom => ?_⟩
  rw [hsublist.antisymm (votesCast_sublist hr hinits hroom)]

end Runs

/-- Two addresses vote once each, one of them after a vote for a proposal that is not there. -/
theorem one_vote_per_case_iff_once : ∃ h c,
    machine.Run BallotOnly ⟨deployed fun _ : Fin 2 => 5, 0⟩ h c ∧ c.state.currentCase = 1 ∧
      calls h = [.vote 1 0 1, .vote 0 1 1, .vote 0 7 1, .init 0 ["Spring", "Yarn"]] ∧
      OneVotePerCase (fun _ => 5) h c.state := by
  obtain ⟨⟨h, c⟩, hx, hone, hcalls⟩ :
      ∃ r ∈ machine.exec BallotOnly ⟨deployed fun _ : Fin 2 => 5, 0⟩
        [.call (.init 0 ["Spring", "Yarn"]), .call (.vote 0 7 1), .call (.vote 0 1 1),
          .call (.vote 1 0 1)],
        r.2.state.currentCase = 1 ∧
          calls r.1 = [.vote 1 0 1, .vote 0 1 1, .vote 0 7 1, .init 0 ["Spring", "Yarn"]] := by
    decide
  have hr := Machine.exec_run hx
  exact ⟨h, c, hr, hone, hcalls, (one_vote_per_case_iff hr).1 (by rw [hcalls]; decide)⟩

/-- Address 0 of weight 5 votes twice in case 1: both calls return true and are counted. -/
theorem voted_twice : ∃ h c,
    machine.Run BallotOnly ⟨deployed fun _ : Fin 2 => 5, 0⟩ h c ∧ c.state.currentCase = 1 ∧
      acceptedVotes h = [⟨0, 1, 1⟩, ⟨0, 1, 1⟩] ∧ c.state.votedWeights = [0, 10] ∧
      ∑ a : Fin 2 with ∃ v ∈ acceptedVotes h, v.voter = a ∧ v.proposalIndex = 1, 5 = 5 ∧
      ¬ OneVotePerCase (fun _ => 5) h c.state := by
  obtain ⟨⟨h, c⟩, hx, hone, hvotes, hweights⟩ :
      ∃ r ∈ machine.exec BallotOnly ⟨deployed fun _ : Fin 2 => 5, 0⟩
        [.call (.init 0 ["Spring", "Yarn"]), .call (.vote 0 1 1), .call (.vote 0 1 1)],
        r.2.state.currentCase = 1 ∧ acceptedVotes r.1 = [⟨0, 1, 1⟩, ⟨0, 1, 1⟩] ∧
          r.2.state.votedWeights = [0, 10] := by decide
  refine ⟨h, c, Machine.exec_run hx, hone, hvotes, hweights, by rw [hvotes]; decide,
    fun hrule => ?_⟩
  have hone := hrule.1 0 1
  rw [hvotes] at hone
  exact absurd hone (by decide)

end Ballot

end Sei

end RelayContracts
