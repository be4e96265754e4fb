import Mathlib.Algebra.BigOperators.Group.Finset.Piecewise
import RelayContracts.Preda.Ballot
import RelayContracts.Synchronous

/-!
# The Aptos ballot module

The Move module `xtl_ballot`. Each forum is an account that stores its own list of proposals, and a
vote is sent to one forum; spreading the votes over forums is what makes them independent of each
other. `finalize` goes over a list of forums and adds up their totals. The struct `Proposal` is that
of the PREDA contract.

`sharded_votes_exact` says that the routing does not matter: the accumulator holds the votes, as it
would had they all been sent to one forum. What `finalize` makes of the accumulator is another
matter: its comparison is the wrong way round, and it returns the first proposal always
(`finalize_winner_iff`).

The voter signs the transaction and is no argument of `vote`, so voters do not appear.

## Main definitions

* `Ballot.initializeForum`, `Ballot.vote`, `Ballot.finalize`
* `Ballot.accumulate` — the loops of `finalize` that build `res`
-/

namespace RelayContracts

namespace Aptos

namespace Ballot

open RelayMachine
open Preda.Ballot (Proposal totalAt totalAt_eq)

/-- Why a transaction aborted. -/
inductive Abort where
  /-- `FORUM_IS_NOT_EXISTED`, from the `assert!` of `vote`. -/
  | forumIsNotExisted
  /-- `move_to` where the resource exists. -/
  | resourceAlreadyExists
  /-- `borrow_global` where it does not. -/
  | missingData
  /-- `vector::borrow` past the end. -/
  | indexOutOfBounds
  /-- A `u64` overflowed. -/
  | arithmeticError
  deriving DecidableEq, Repr

/-- The resource `Proposals` of each account that has one. -/
abbrev Storage (A : Type) := A → Option (List Proposal)

/-- The functions of the module. -/
inductive Call (A : Type) where
  /-- `initialize(forum, names)`. -/
  | initializeForum (forum : A) (names : List String)
  /-- `vote(forum, proposal_index)`. -/
  | vote (forum : A) (proposalIndex : ℕ)
  /-- `finalize(forums)`. -/
  | finalize (forums : List A)
  deriving DecidableEq, Repr

variable {A : Type}

/-- No account has a resource. -/
def empty : Storage A := fun _ => none

/-! ### The functions -/

/-- `borrow_global<Proposals>(forum).proposals`. -/
def borrowGlobal (forum : A) (s : Storage A) : Except Abort (List Proposal) :=
  match s forum with
  | some proposals => .ok proposals
  | none => .error .missingData

/-- The inner loop of `finalize`: `res[j] = proposals[j].totalVotedWeight + res[j]`. -/
def addForum : List Proposal → List ℕ → Except Abort (List ℕ)
  | [], res => .ok res
  | _ :: _, [] => .error .indexOutOfBounds
  | p :: proposals, v :: res => do
    let v ← faultAs .arithmeticError (addU .trap 64 p.totalVotedWeight v)
    let res ← addForum proposals res
    .ok (v :: res)

/-- The loops of `finalize` that build `res`. -/
def accumulate (forums : List A) (s : Storage A) : Except Abort (List ℕ) :=
  match forums with
  | [] => .error .indexOutOfBounds
  | tmpForum :: _ => do
    let proposals ← borrowGlobal tmpForum s
    forums.foldlM (fun res forum => do
      let proposals ← borrowGlobal forum s
      addForum proposals res) (List.replicate proposals.length 0)

/-- The loop of `finalize` that picks `winer`, from the index `i` on. -/
def pickWiner : List ℕ → (i winer maxWeight : ℕ) → ℕ
  | [], _, winer, _ => winer
  | v :: res, i, winer, maxWeight =>
    if maxWeight > v then pickWiner res (i + 1) i v else pickWiner res (i + 1) winer maxWeight

/-- `finalize(forums)`. -/
def finalize (forums : List A) (s : Storage A) : Except Abort ℕ := do
  let res ← accumulate forums s
  .ok (pickWiner res 0 0 0)

variable [DecidableEq A]

/-- `initialize(forum, names)`. -/
def initializeForum (forum : A) (names : List String) (s : Storage A) :
    Except Abort (Effect (Storage A) Empty (Option ℕ)) :=
  match s forum with
  | some _ => .error .resourceAlreadyExists
  | none =>
    -- the loop pushes one proposal per name
    let proposals := names.foldl (fun ps name => ps ++ [⟨name, 0⟩]) []
    .ok ⟨Function.update s forum (some proposals), none, []⟩

/-- `vote(forum, proposal_index)`. -/
def vote (forum : A) (proposalIndex : ℕ) (s : Storage A) :
    Except Abort (Effect (Storage A) Empty (Option ℕ)) :=
  match s forum with
  | none => .error .forumIsNotExisted
  | some proposals =>
    match proposals[proposalIndex]? with
    | none => .error .indexOutOfBounds
    | some p => do
      let totalVotedWeight ← faultAs .arithmeticError (addU .trap 64 p.totalVotedWeight 1)
      .ok ⟨Function.update s forum
        (some (proposals.set proposalIndex { p with totalVotedWeight })), none, []⟩

/-- The module as a machine without relays. `finalize` is a view: it changes nothing. -/
def machine : Machine (Storage A) (Call A) Empty (Option ℕ) Abort where
  call
    | .initializeForum forum names => initializeForum forum names
    | .vote forum proposalIndex => vote forum proposalIndex
    | .finalize forums => fun s => do
      let winer ← finalize forums s
      .ok ⟨s, some winer, []⟩
  relay m := m.elim

/-! ### Votes -/

/-- The events of a run of the module, latest first. -/
abbrev History (A : Type) := List (Event (Call A) Empty (Option ℕ) Abort)

/-- A vote, and the forum it is sent to. -/
structure Vote (A : Type) where
  /-- The forum. -/
  forum : A
  /-- The index voted for. -/
  proposalIndex : ℕ
  deriving DecidableEq, Repr

/-- The call that casts a vote. -/
def Vote.call (v : Vote A) : Call A := .vote v.forum v.proposalIndex

/-- The vote sent to another forum. -/
def Vote.sentTo (f : A) (v : Vote A) : Vote A := ⟨f, v.proposalIndex⟩

/-- A vote for an index that did not abort. -/
def succeededFor (j : ℕ) : Call A × Except Abort (Option ℕ) → Bool
  | (.vote _ i, .ok _) => i = j
  | _ => false

/-- What the forums `fs` hold after the votes `vs`, and that nobody else holds anything. -/
structure Stored (names : List String) (fs : List A) (vs : List (Vote A)) (s : Storage A) :
    Prop where
  exists_of_mem : ∀ f ∈ fs, ∃ ps, s f = some ps ∧ ps.map Proposal.name = names ∧
    ∀ j < names.length, totalAt ps j = vs.countP fun v => v.forum = f ∧ v.proposalIndex = j
  none_of_notMem : ∀ f ∉ fs, s f = none

/-- The calls that initialise the forums and then cast the votes, latest first. -/
def sessionCalls (names : List String) (fs : List A) (vs : List (Vote A)) : List (Call A) :=
  vs.map Vote.call ++ fs.map fun f => .initializeForum f names

/-- What these calls return. -/
def sessionOutcomes (names : List String) (fs : List A) (vs : List (Vote A)) :
    List (Call A × Except Abort (Option ℕ)) :=
  (vs.map fun v => (v.call,
    if v.proposalIndex < names.length then .ok none else .error .indexOutOfBounds)) ++
  fs.map fun f => (.initializeForum f names, .ok none)

section Runs

variable {names : List String} {fs : List A} {vs : List (Vote A)} {s : Storage A}
  {h : History A} {c : Config (Storage A) Empty}

theorem stored_empty (names : List String) : Stored names [] [] (empty : Storage A) :=
  ⟨fun _ hf => absurd hf List.not_mem_nil, fun _ _ => rfl⟩

/-- A forum that is not there yet can be initialised. -/
theorem Stored.initializeForum (hs : Stored names fs [] s) {f : A} (hf : f ∉ fs) :
    ∃ s', machine.call (.initializeForum f names) s = .ok ⟨s', none, []⟩ ∧
      Stored names (f :: fs) [] s' := by
  refine ⟨Function.update s f (some (names.map fun name => ⟨name, 0⟩)), ?_, fun f' hf' => ?_,
    fun f' hf' => ?_⟩
  · show Ballot.initializeForum f names s = _
    rw [Ballot.initializeForum, hs.none_of_notMem f hf]
    simp only [Preda.Ballot.foldl_push, List.nil_append]
  · by_cases heq : f' = f
    · subst heq
      refine ⟨_, Function.update_self .., ?_, fun j _ => ?_⟩
      · rw [List.map_map]
        exact List.map_id names
      · exact Preda.Ballot.totalAt_append_zero [] names j
    · rw [Function.update_of_ne heq]
      exact hs.exists_of_mem f' ((List.mem_cons.mp hf').resolve_left heq)
  · rw [List.mem_cons, not_or] at hf'
    rw [Function.update_of_ne hf'.1]
    exact hs.none_of_notMem f' hf'.2

/-- The totals after one of them is set. -/
theorem totalAt_set {ps : List Proposal} {i : ℕ} (hi : i < ps.length) (p : Proposal) (j : ℕ) :
    totalAt (ps.set i p) j = if j = i then p.totalVotedWeight else totalAt ps j := by
  rw [totalAt, List.map_set, List.getD_eq_getElem?_getD]
  by_cases hj : j = i
  · subst hj
    rw [if_pos rfl, List.getElem?_set_self (by simpa using hi), Option.getD_some]
  · rw [if_neg hj, List.getElem?_set_ne (Ne.symm hj), totalAt, List.getD_eq_getElem?_getD]

theorem map_name_set {ps : List Proposal} {i : ℕ} (hi : i < ps.length) (t : ℕ) :
    (ps.set i ⟨ps[i].name, t⟩).map Proposal.name = ps.map Proposal.name := by
  have hi' : i < (ps.map Proposal.name).length := by simpa using hi
  calc (ps.set i ⟨ps[i].name, t⟩).map Proposal.name
      = (ps.map Proposal.name).set i (ps.map Proposal.name)[i] := by
        rw [List.map_set, List.getElem_map]
    _ = ps.map Proposal.name := List.set_getElem_self hi'

/-- A vote in range is counted at its forum. -/
theorem Stored.vote (hs : Stored names fs vs s) {v : Vote A} (hf : v.forum ∈ fs)
    (hlen : vs.length + 1 < 2 ^ 64) (hv : v.proposalIndex < names.length) :
    ∃ s', machine.call v.call s = .ok ⟨s', none, []⟩ ∧ Stored names fs (v :: vs) s' := by
  obtain ⟨ps, hps, hnames, htot⟩ := hs.exists_of_mem v.forum hf
  have hi : v.proposalIndex < ps.length := by rwa [← hnames, List.length_map] at hv
  have hold := htot v.proposalIndex hv
  have hroom : ps[v.proposalIndex].totalVotedWeight + 1 < 2 ^ 64 := by
    rw [← totalAt_eq hi, hold]
    have hle : vs.countP (fun u => u.forum = v.forum ∧ u.proposalIndex = v.proposalIndex)
        ≤ vs.length := List.countP_le_length
    omega
  refine ⟨Function.update s v.forum (some (ps.set v.proposalIndex
    ⟨ps[v.proposalIndex].name, ps[v.proposalIndex].totalVotedWeight + 1⟩)), ?_,
    fun f hf' => ?_, fun f hf' => ?_⟩
  · show Ballot.vote v.forum v.proposalIndex s = _
    rw [Ballot.vote, hps]
    simp only [List.getElem?_eq_getElem hi, addU_of_lt hroom, faultAs, ok_bind]
  · by_cases heq : f = v.forum
    · subst heq
      refine ⟨_, Function.update_self .., ?_, fun j hj => ?_⟩
      · rw [map_name_set hi, hnames]
      · rw [totalAt_set hi, List.countP_cons]
        by_cases hji : j = v.proposalIndex
        · subst hji
          simp [← totalAt_eq hi, hold]
        · simp [hji, htot j hj, Ne.symm hji]
    · obtain ⟨qs, hqs, hn, ht⟩ := hs.exists_of_mem f hf'
      refine ⟨qs, by rw [Function.update_of_ne heq, hqs], hn, fun j hj => ?_⟩
      rw [ht j hj, List.countP_cons, if_neg (by simp [Ne.symm heq]), Nat.add_zero]
  · have heq : f ≠ v.forum := fun heq => hf' (heq ▸ hf)
    rw [Function.update_of_ne heq]
    exact hs.none_of_notMem f hf'

/-- A vote out of range aborts at every forum. -/
theorem Stored.vote_outOfBounds (hs : Stored names fs vs s) {v : Vote A} (hf : v.forum ∈ fs)
    (hv : ¬ v.proposalIndex < names.length) :
    machine.call v.call s = .error .indexOutOfBounds ∧ Stored names fs (v :: vs) s := by
  refine ⟨?_, fun f hf' => ?_, hs.none_of_notMem⟩
  · obtain ⟨ps, hps, hnames, -⟩ := hs.exists_of_mem v.forum hf
    have hi : ps.length ≤ v.proposalIndex := by
      rw [← hnames, List.length_map] at hv
      exact not_lt.mp hv
    show Ballot.vote v.forum v.proposalIndex s = _
    rw [Ballot.vote, hps]
    simp only [List.getElem?_eq_none hi]
  · obtain ⟨qs, hqs, hn, ht⟩ := hs.exists_of_mem f hf'
    refine ⟨qs, hqs, hn, fun j hj => ?_⟩
    have hne : v.proposalIndex ≠ j := fun heq => hv (heq ▸ hj)
    rw [ht j hj, List.countP_cons, if_neg (by simp [hne]), Nat.add_zero]

/-- Run lemma: what is stored after the calls of a session, and what they returned. -/
theorem stored_of_run (hr : machine.Run Anything ⟨empty, 0⟩ h c) (hnodup : fs.Nodup)
    (hroute : ∀ v ∈ vs, v.forum ∈ fs) (hlen : vs.length < 2 ^ 64)
    (hcalls : calls h = sessionCalls names fs vs) :
    Stored names fs vs c.state ∧ outcomes h = sessionOutcomes names fs vs := by
  induction hr generalizing fs vs with
  | nil =>
    rw [calls_nil, sessionCalls, eq_comm, List.append_eq_nil_iff, List.map_eq_nil_iff,
      List.map_eq_nil_iff] at hcalls
    obtain ⟨rfl, rfl⟩ := hcalls
    exact ⟨stored_empty names, rfl⟩
  | @step h c c' e hr hs _ ih =>
    cases e with
    | deliver m r => exact m.elim
    | call k r =>
      cases vs with
      | nil =>
        cases fs with
        | nil => cases hcalls
        | cons f fs =>
          obtain ⟨rfl, hbefore⟩ := List.cons.inj hcalls
          obtain ⟨hf, hnodup⟩ := List.nodup_cons.mp hnodup
          obtain ⟨hst, hout⟩ := ih hnodup (List.forall_mem_nil _) (Nat.two_pow_pos 64) hbefore
          obtain ⟨s', hcall, hst'⟩ := hst.initializeForum hf
          obtain ⟨rfl, rfl⟩ := hs.of_call_ok hcall
          exact ⟨hst', by rw [outcomes_cons_call, hout]; rfl⟩
      | cons v vs =>
        obtain ⟨rfl, hbefore⟩ := List.cons.inj hcalls
        have hroute' : ∀ u ∈ vs, u.forum ∈ fs := fun u hu => hroute u (List.mem_cons_of_mem v hu)
        rw [List.length_cons] at hlen
        obtain ⟨hst, hout⟩ := ih hnodup hroute' (Nat.lt_of_succ_lt hlen) hbefore
        by_cases hv : v.proposalIndex < names.length
        · obtain ⟨s', hcall, hst'⟩ := hst.vote (hroute v List.mem_cons_self) hlen hv
          obtain ⟨rfl, rfl⟩ := hs.of_call_ok hcall
          refine ⟨hst', ?_⟩
          rw [outcomes_cons_call, hout, sessionOutcomes, sessionOutcomes, List.map_cons, if_pos hv]
          rfl
        · obtain ⟨hcall, hst'⟩ := hst.vote_outOfBounds (hroute v List.mem_cons_self) hv
          obtain ⟨rfl, rfl⟩ := hs.of_call_error hcall
          refine ⟨hst', ?_⟩
          rw [outcomes_cons_call, hout, sessionOutcomes, sessionOutcomes, List.map_cons, if_neg hv]
          rfl

omit [DecidableEq A] in
/-- The votes that succeed for an index are the votes for it. -/
theorem countP_succeededFor (names : List String) (fs : List A) (vs : List (Vote A)) {j : ℕ}
    (hj : j < names.length) :
    (sessionOutcomes names fs vs).countP (succeededFor j) =
      vs.countP fun v => v.proposalIndex = j := by
  rw [sessionOutcomes, List.countP_append, List.countP_map, List.countP_map]
  have hinit : fs.countP (succeededFor j ∘ fun f => (.initializeForum f names, .ok none)) = 0 :=
    List.countP_eq_zero.mpr fun f _ => by simp [succeededFor]
  rw [hinit, Nat.add_zero]
  refine List.countP_congr fun v _ => ?_
  by_cases hv : v.proposalIndex < names.length
  · simp [succeededFor, Vote.call, hv]
  · have hne : v.proposalIndex ≠ j := fun heq => hv (heq ▸ hj)
    simp [succeededFor, Vote.call, hv, hne]

end Runs

/-! ### The accumulator -/

omit [DecidableEq A] in
/-- The totals of a forum are added entry by entry, if the sums fit. -/
theorem exists_addForum : ∀ (ps : List Proposal) (res : List ℕ), ps.length = res.length →
    (∀ j, totalAt ps j + res.getD j 0 < 2 ^ 64) →
    ∃ res', addForum ps res = .ok res' ∧ res'.length = res.length ∧
      ∀ j, res'.getD j 0 = totalAt ps j + res.getD j 0
  | [], [], _, _ => ⟨[], rfl, rfl, fun _ => rfl⟩
  | p :: ps, v :: res, hlen, hfit => by
    obtain ⟨res', hres', hlen', hval⟩ := exists_addForum ps res (Nat.succ.inj hlen)
      fun j => hfit (j + 1)
    have h0 : p.totalVotedWeight + v < 2 ^ 64 := hfit 0
    refine ⟨(p.totalVotedWeight + v) :: res', ?_, by simp [hlen'], fun j => ?_⟩
    · rw [addForum, addU_of_lt h0, faultAs, ok_bind, hres', ok_bind]
    · cases j with
      | zero => rfl
      | succ j => exact hval j

omit [DecidableEq A] in
/-- Run lemma of the outer loop: if forum `f` holds `total f j` for the `j`-th proposal, the loop
adds up the `total`s. -/
theorem exists_foldlM_addForum {s : Storage A} {n : ℕ} {total : A → ℕ → ℕ} :
    ∀ (fs : List A) (res : List ℕ), res.length = n →
      (∀ f ∈ fs, ∃ ps, s f = some ps ∧ ps.length = n ∧ ∀ j, totalAt ps j = total f j) →
      (∀ j, (fs.map fun f => total f j).sum + res.getD j 0 < 2 ^ 64) →
      ∃ res', fs.foldlM (fun res forum => do
          let proposals ← borrowGlobal forum s
          addForum proposals res) res = .ok res' ∧ res'.length = n ∧
        ∀ j, res'.getD j 0 = (fs.map fun f => total f j).sum + res.getD j 0
  | [], res, hlen, _, _ => ⟨res, rfl, hlen, fun j => by simp⟩
  | f :: fs, res, hlen, hfs, hfit => by
    obtain ⟨ps, hps, hn, htot⟩ := hfs f List.mem_cons_self
    simp only [List.map_cons, List.sum_cons] at hfit
    obtain ⟨res₁, hadd, hlen₁, hval₁⟩ := exists_addForum ps res (by omega)
      fun j => by rw [htot]; have := hfit j; omega
    obtain ⟨res', hfold, hlen', hval'⟩ := exists_foldlM_addForum fs res₁ (by omega)
      (fun g hg => hfs g (List.mem_cons_of_mem f hg))
      fun j => by rw [hval₁, htot]; have := hfit j; omega
    refine ⟨res', ?_, hlen', fun j => ?_⟩
    · rw [List.foldlM_cons, borrowGlobal, hps]
      simp only [ok_bind, hadd, hfold]
    · rw [hval', hval₁, htot, List.map_cons, List.sum_cons]
      omega

omit [DecidableEq A] in
/-- The accumulator is what the outer loop makes of as many zeros as there are proposals. -/
theorem accumulate_eq_ok {forums : List A} {s : Storage A} {n : ℕ} {res : List ℕ}
    (hne : forums ≠ []) (hheld : ∀ f ∈ forums, ∃ ps, s f = some ps ∧ ps.length = n)
    (hfold : forums.foldlM (fun res forum => do
        let proposals ← borrowGlobal forum s
        addForum proposals res) (List.replicate n 0) = .ok res) :
    accumulate forums s = .ok res := by
  cases forums with
  | nil => exact absurd rfl hne
  | cons f forums =>
    obtain ⟨ps, hps, hn⟩ := hheld f List.mem_cons_self
    simp only [accumulate, borrowGlobal, hps, ok_bind, hn]
    exact hfold

/-- Votes sent to distinct forums are counted once each. -/
theorem sum_countP_forum {fs : List A} (hnodup : fs.Nodup) (j : ℕ) :
    ∀ {vs : List (Vote A)}, (∀ v ∈ vs, v.forum ∈ fs) →
      (fs.map fun f => vs.countP fun v => v.forum = f ∧ v.proposalIndex = j).sum =
        vs.countP fun v => v.proposalIndex = j
  | [], _ => by simp
  | v :: vs, hroute => by
    have ih := sum_countP_forum hnodup j fun u hu => hroute u (List.mem_cons_of_mem v hu)
    -- of the forums, exactly the one the vote was sent to counts it
    have hv : (fs.map fun f => if v.forum = f ∧ v.proposalIndex = j then 1 else 0).sum =
        if v.proposalIndex = j then 1 else 0 := by
      simp only [and_comm (b := v.proposalIndex = j), ite_and]
      rw [← List.sum_toFinset _ hnodup, Finset.sum_ite_irrel, Finset.sum_ite_eq,
        if_pos (List.mem_toFinset.mpr (hroute v List.mem_cons_self)), Finset.sum_const_zero]
    simp only [List.countP_cons, List.sum_map_add, ih, decide_eq_true_eq, hv]

section Sessions

variable {names : List String} {forums fs : List A} {vs : List (Vote A)} {s : Storage A}

/-- The total of a proposal that the votes of a session leave at a forum. -/
def heldAt (names : List String) (vs : List (Vote A)) (f : A) (j : ℕ) : ℕ :=
  if j < names.length then vs.countP fun v => v.forum = f ∧ v.proposalIndex = j else 0

theorem Stored.exists_heldAt (hs : Stored names fs vs s) {f : A} (hf : f ∈ fs) :
    ∃ ps, s f = some ps ∧ ps.length = names.length ∧ ∀ j, totalAt ps j = heldAt names vs f j := by
  obtain ⟨ps, hps, hnames, htot⟩ := hs.exists_of_mem f hf
  have hn : ps.length = names.length := by rw [← hnames, List.length_map]
  refine ⟨ps, hps, hn, fun j => ?_⟩
  by_cases hj : j < names.length
  · rw [heldAt, if_pos hj, htot j hj]
  · rw [heldAt, if_neg hj]
    exact Preda.Ballot.totalAt_of_le (by omega)

theorem sum_heldAt (hforums : forums.Nodup) (hroute : ∀ v ∈ vs, v.forum ∈ forums) (j : ℕ) :
    (forums.map fun f => heldAt names vs f j).sum =
      if j < names.length then vs.countP fun v => v.proposalIndex = j else 0 := by
  by_cases hj : j < names.length
  · simp only [heldAt, if_pos hj]
    exact sum_countP_forum hforums j hroute
  · simp [heldAt, if_neg hj]

theorem sum_heldAt_lt (hforums : forums.Nodup) (hroute : ∀ v ∈ vs, v.forum ∈ forums)
    (hlen : vs.length < 2 ^ 64) (j : ℕ) :
    (forums.map fun f => heldAt names vs f j).sum < 2 ^ 64 := by
  have hle : vs.countP (fun v => v.proposalIndex = j) ≤ vs.length := List.countP_le_length
  rw [sum_heldAt hforums hroute]
  split <;> omega

theorem getD_replicate_zero (n j : ℕ) : (List.replicate n 0).getD j 0 = 0 := by
  rw [List.getD_eq_getElem?_getD, List.getElem?_replicate]
  split <;> rfl

/-- The accumulator, from what the forums hold. -/
theorem Stored.accumulate (hs : Stored names fs vs s) (hne : forums ≠ []) (hforums : forums.Nodup)
    (hmem : ∀ f, f ∈ fs ↔ f ∈ forums) (hroute : ∀ v ∈ vs, v.forum ∈ fs)
    (hlen : vs.length < 2 ^ 64) :
    Ballot.accumulate forums s =
      .ok ((List.range names.length).map fun j => vs.countP fun v => v.proposalIndex = j) := by
  have hroute : ∀ v ∈ vs, v.forum ∈ forums := fun v hv => (hmem _).mp (hroute v hv)
  have hheld : ∀ f ∈ forums, ∃ ps, s f = some ps ∧ ps.length = names.length ∧
      ∀ j, totalAt ps j = heldAt names vs f j := fun f hf => hs.exists_heldAt ((hmem f).mpr hf)
  obtain ⟨res, hfold, hlen', hval⟩ := exists_foldlM_addForum forums
    (List.replicate names.length 0) List.length_replicate hheld fun j => by
      rw [getD_replicate_zero, Nat.add_zero]
      exact sum_heldAt_lt hforums hroute hlen j
  have hres : res = (List.range names.length).map fun j =>
      vs.countP fun v => v.proposalIndex = j := by
    refine List.ext_getElem (by simp [hlen']) fun j hj _ => ?_
    have hjv := hval j
    rw [sum_heldAt hforums hroute, getD_replicate_zero, Nat.add_zero, List.getD_eq_getElem _ _ hj,
      if_pos (hlen' ▸ hj)] at hjv
    simp [hjv]
  rw [← hres]
  refine accumulate_eq_ok hne (fun f hf => ?_) hfold
  obtain ⟨ps, hps, hn, -⟩ := hheld f hf
  exact ⟨ps, hps, hn⟩

/-- **Sharded voting loses no vote.** The forums are initialised, in any order, and then the votes
are cast, each at a forum of its own choice. A vote aborts exactly if its index is out of range;
`finalize` does not abort, and its accumulator holds for each proposal the number of votes that
succeeded, as it does when all the votes go to one forum. -/
theorem sharded_votes_exact (names : List String) {forums fs : List A} (hne : forums ≠ [])
    (hforums : forums.Nodup) (hfs : fs.Perm forums) {vs : List (Vote A)}
    (hroute : ∀ v ∈ vs, v.forum ∈ forums) (hlen : vs.length < 2 ^ 64) :
    (∃ h c, machine.Run Anything ⟨empty, 0⟩ h c ∧ calls h = sessionCalls names fs vs) ∧
    ∀ h c, machine.Run Anything ⟨empty, 0⟩ h c → calls h = sessionCalls names fs vs →
      outcomes h = sessionOutcomes names fs vs ∧
      accumulate forums c.state = .ok ((List.range names.length).map fun j =>
        (outcomes h).countP (succeededFor j)) ∧
      (∃ winer, finalize forums c.state = .ok winer) ∧
      ∀ f h' c', machine.Run Anything ⟨empty, 0⟩ h' c' →
        calls h' = sessionCalls names [f] (vs.map (Vote.sentTo f)) →
        accumulate [f] c'.state = accumulate forums c.state := by
  refine ⟨machine.exists_run empty _, fun h c hr hcalls => ?_⟩
  have hroute' : ∀ v ∈ vs, v.forum ∈ fs := fun v hv => hfs.mem_iff.mpr (hroute v hv)
  obtain ⟨hst, hout⟩ := stored_of_run hr (hfs.nodup_iff.mpr hforums) hroute' hlen hcalls
  have hacc := hst.accumulate hne hforums (fun _ => hfs.mem_iff) hroute' hlen
  refine ⟨hout, ?_, ⟨_, by rw [finalize, hacc, ok_bind]⟩, fun f h' c' hr' hcalls' => ?_⟩
  · rw [hacc, hout]
    congr 1
    exact List.map_congr_left fun j hj =>
      (countP_succeededFor names fs vs (List.mem_range.mp hj)).symm
  · have hsent : ∀ v ∈ vs.map (Vote.sentTo f), v.forum ∈ [f] := by
      simp [Vote.sentTo]
    have hlen' : (vs.map (Vote.sentTo f)).length < 2 ^ 64 := by rwa [List.length_map]
    obtain ⟨hst', -⟩ := stored_of_run hr' (List.nodup_singleton f) hsent hlen' hcalls'
    rw [hacc, hst'.accumulate (List.cons_ne_nil f []) (List.nodup_singleton f) (fun _ => Iff.rfl)
      hsent hlen']
    simp only [List.countP_map]
    rfl

/-- Three votes at two forums, one of them for a proposal that is not there. -/
theorem sharded_votes_exact_twoForums : ∃ h c,
    machine.Run Anything ⟨empty, 0⟩ h c ∧
    calls h = sessionCalls ["Spring", "Yarn"] [true, false]
      [⟨false, 1⟩, ⟨true, 7⟩, ⟨true, 1⟩] ∧
    accumulate [false, true] c.state = .ok ((List.range 2).map fun j =>
      (outcomes h).countP (succeededFor j)) := by
  obtain ⟨⟨h, c, hr, hcalls⟩, hall⟩ :=
    @sharded_votes_exact Bool _ ["Spring", "Yarn"] [false, true] [true, false] (by decide)
      (by decide) (by decide) [⟨false, 1⟩, ⟨true, 7⟩, ⟨true, 1⟩] (by decide) (by decide)
  exact ⟨h, c, hr, hcalls, (hall h c hr hcalls).2.1⟩

end Sessions

/-! ### The winner -/

section Winner

variable {forums : List A} {s : Storage A}

/-- The votes for a proposal at all forums of a list. -/
def totalOver (forums : List A) (s : Storage A) (j : ℕ) : ℕ :=
  (forums.map fun f => totalAt ((s f).getD []) j).sum

/-- The loop that picks `winer` looks for a weight *below* the best so far. It starts at weight `0`,
and so never finds one. -/
theorem pickWiner_zero (res : List ℕ) (i winer : ℕ) : pickWiner res i winer 0 = winer := by
  induction res generalizing i with
  | nil => rfl
  | cons v res ih => rw [pickWiner, if_neg (Nat.not_lt_zero v), ih]

omit [DecidableEq A] in
/-- `finalize` returns the first proposal, whatever the votes are. -/
theorem finalize_eq_zero (hne : forums ≠ []) {p : ℕ}
    (hheld : ∀ f ∈ forums, ∃ ps, s f = some ps ∧ ps.length = p)
    (hfit : ∀ j < p, totalOver forums s j < 2 ^ 64) : finalize forums s = .ok 0 := by
  have hfit' : ∀ j, totalOver forums s j < 2 ^ 64 := by
    intro j
    by_cases hj : j < p
    · exact hfit j hj
    · have hzero : totalOver forums s j = 0 := by
        refine List.sum_eq_zero fun v hv => ?_
        obtain ⟨f, hf, rfl⟩ := List.mem_map.mp hv
        obtain ⟨ps, hps, hlen⟩ := hheld f hf
        rw [hps, Option.getD_some, Preda.Ballot.totalAt_of_le (by omega)]
      rw [hzero]
      exact Nat.two_pow_pos 64
  have hheld' : ∀ f ∈ forums, ∃ ps, s f = some ps ∧ ps.length = p ∧
      ∀ j, totalAt ps j = totalAt ((s f).getD []) j := by
    intro f hf
    obtain ⟨ps, hps, hlen⟩ := hheld f hf
    exact ⟨ps, hps, hlen, fun j => by rw [hps, Option.getD_some]⟩
  obtain ⟨res, hfold, -, -⟩ := exists_foldlM_addForum forums (List.replicate p 0)
    List.length_replicate hheld' fun j => by
      rw [getD_replicate_zero, Nat.add_zero]
      exact hfit' j
  rw [finalize, accumulate_eq_ok hne hheld hfold, ok_bind, pickWiner_zero]

omit [DecidableEq A] in
/-- **When `finalize` returns a winner.** Forums that hold `p` proposals each, with totals that fit
a `u64`: the index that `finalize` returns is one of a proposal with the most votes if and only if
the first proposal has the most votes. -/
theorem finalize_winner_iff (hne : forums ≠ []) {p : ℕ} (hp : 1 ≤ p)
    (hheld : ∀ f ∈ forums, ∃ ps, s f = some ps ∧ ps.length = p)
    (hfit : ∀ j < p, totalOver forums s j < 2 ^ 64) :
    (∃ winer, finalize forums s = .ok winer ∧ winer < p ∧
        ∀ j < p, totalOver forums s j ≤ totalOver forums s winer) ↔
      ∀ j < p, totalOver forums s j ≤ totalOver forums s 0 := by
  have hzero := finalize_eq_zero hne hheld hfit
  constructor
  · rintro ⟨winer, hwiner, -, hmax⟩
    cases hzero.symm.trans hwiner
    exact hmax
  · intro hmax
    exact ⟨0, hzero, hp, hmax⟩

/-- Two forums, where the first proposal has three votes of five. -/
theorem finalize_winner_first :
    ∃ winer, finalize [false, true] (fun b => some (bif b then [⟨"Spring", 1⟩, ⟨"Yarn", 2⟩]
        else [⟨"Spring", 2⟩, ⟨"Yarn", 0⟩])) = .ok winer ∧ winer < 2 ∧
      ∀ j < 2, totalOver [false, true] (fun b => some (bif b then [⟨"Spring", 1⟩, ⟨"Yarn", 2⟩]
          else [⟨"Spring", 2⟩, ⟨"Yarn", 0⟩])) j ≤
        totalOver [false, true] (fun b => some (bif b then [⟨"Spring", 1⟩, ⟨"Yarn", 2⟩]
          else [⟨"Spring", 2⟩, ⟨"Yarn", 0⟩])) winer :=
  (finalize_winner_iff (by decide) (by decide)
    (fun f _ => match f with
      | false => ⟨_, rfl, rfl⟩
      | true => ⟨_, rfl, rfl⟩)
    (by decide)).mpr (by decide)

/-- A single forum, where the second proposal has the only vote: `finalize` returns the first. -/
theorem finalize_misses_winner :
    finalize [()] (fun _ => some [⟨"Spring", 0⟩, ⟨"Yarn", 1⟩]) = .ok 0 ∧
      totalOver [()] (fun _ => some [⟨"Spring", 0⟩, ⟨"Yarn", 1⟩]) 0 <
        totalOver [()] (fun _ => some [⟨"Spring", 0⟩, ⟨"Yarn", 1⟩]) 1 := by decide

end Winner

end Ballot

end Aptos

end RelayContracts
