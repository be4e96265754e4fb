import RelayContracts.Preda.BallotWave

/-!
# What a finalization decides

`BallotWave` says what one finalization adds to the totals. This file says what it makes of them:
the result is left alone until the last array is gathered, and then names the first proposal of
maximal total weight.

From there the whole of one case follows. Take a run from deployment with one `init`, any votes,
then one `finalize`, and let every relay be delivered: whatever the order, the last array gathered
is the one that decides, the totals are exact, and the result is a function of the accepted votes
alone.

## Main results

* `decided_of_run` — when the result is written, and with what
* `ballot_single_case` — one case, from deployment to its result
-/

namespace RelayContracts

namespace Preda

namespace Ballot

open RelayMachine

variable {A : Type} {k : ℕ}

/-! ### The order of events -/

/-- No vote is accepted once a finalization has been started. -/
def VotesFirst (h : History A k) : Prop :=
  h.Pairwise fun later earlier => (accepted? later).isSome → ¬ isFinalize earlier

/-- No case is opened once a vote has been accepted or a finalization has been started. -/
def OpensFirst (h : History A k) : Prop :=
  h.Pairwise fun later earlier => isOpen later → ¬ (accepted? earlier).isSome ∧ ¬ isFinalize earlier

instance (h : History A k) : Decidable (VotesFirst h) :=
  inferInstanceAs (Decidable (List.Pairwise _ _))

instance (h : History A k) : Decidable (OpensFirst h) :=
  inferInstanceAs (Decidable (List.Pairwise _ _))

/-- The names the executed `init` blocks have added, in order. -/
def openedNames : History A k → List String
  | [] => []
  | .deliver (.initGlobal names) _ :: h => openedNames h ++ names
  | _ :: h => openedNames h

/-- The result while no case is decided: what was there at the start, or blank once a case has
been opened. -/
def pendingResult (s₀ : State A k) (h : History A k) : BallotResult :=
  if h.countP isOpen = 0 then s₀.lastResult else ⟨"", 0⟩

theorem pendingResult_of_not_isOpen (s₀ : State A k)
    {e : Event (Call A) (Relay k) (Option Bool) Fault} (he : ¬ isOpen e) (h : History A k) :
    pendingResult s₀ (e :: h) = pendingResult s₀ h := by
  rw [pendingResult, pendingResult, List.countP_cons_of_neg he]

theorem pendingResult_empty (weight : A → ℕ) (h : History A k) :
    pendingResult (empty k weight) h = ⟨"", 0⟩ := by
  rw [pendingResult]
  split <;> rfl

theorem openedNames_of_not_isOpen {e : Event (Call A) (Relay k) (Option Bool) Fault}
    (he : ¬ isOpen e) (h : History A k) : openedNames (e :: h) = openedNames h := by
  cases e with
  | call m r => rfl
  | deliver m r =>
    cases m with
    | initGlobal names => exact absurd rfl he
    | _ => rfl

section Runs

variable [DecidableEq A] {X : Chain A} {s₀ : State A X.shardOrder}
  {c : Config (State A X.shardOrder) (Relay X.shardOrder)}
  {G : History A X.shardOrder → Config (State A X.shardOrder) (Relay X.shardOrder) →
    Event (Call A) (Relay X.shardOrder) (Option Bool) Fault → Prop}
  {h : History A X.shardOrder} {weight : A → ℕ}

/-- If votes come first, all of them are timely. -/
theorem timelyVotes_eq (hr : (machine X).Run G ⟨s₀, 0⟩ h c) (hv : VotesFirst h) :
    timelyVotes X h = acceptedVotes h := by
  induction hr with
  | nil => rfl
  | @step h c c' e hr hs hg ih =>
    obtain ⟨he, hv⟩ := List.pairwise_cons.mp hv
    cases hacc : accepted? e with
    | none => rw [timelyVotes_other X hacc, acceptedVotes_other hacc, ih hv]
    | some v =>
      have hfin : h.countP isFinalize = 0 := by
        rw [List.countP_eq_zero]
        intro e' he'
        exact he e' he' (by rw [hacc]; rfl)
      have hsnap := snapshots_le_finalizes hr (X.shardOf v.voter)
      rw [timelyVotes_some X hacc, if_pos (by omega), ih hv, acceptedVotes_some hacc]

/-! ### Cases opened -/

omit [DecidableEq A] in
/-- Until `current_case` overflows, opening a case does not fail. -/
theorem initGlobal_ne_error {s : State A X.shardOrder} {names : List String} {f : Fault}
    (hlt : s.currentCase + 1 < 2 ^ 32) : initGlobal X.overflow names s ≠ .error f := by
  rw [initGlobal, addU_of_lt hlt]
  rintro ⟨⟩

/-- Until `current_case` overflows, it counts the cases opened, and the proposals are those of the
cases opened, in order. -/
theorem opened_of_run (hr : (machine X).Run G ⟨s₀, 0⟩ h c)
    (hcase : s₀.currentCase + h.countP isOpen < 2 ^ 32) :
    c.state.currentCase = s₀.currentCase + h.countP isOpen ∧
      c.state.proposals.map Proposal.name = s₀.proposals.map Proposal.name ++ openedNames h := by
  refine hr.invariant (I := fun h c => s₀.currentCase + h.countP isOpen < 2 ^ 32 →
    c.state.currentCase = s₀.currentCase + h.countP isOpen ∧
      c.state.proposals.map Proposal.name = s₀.proposals.map Proposal.name ++ openedNames h)
    (fun _ => ⟨rfl, by simp [openedNames]⟩) ?_ ?_ ?_ ?_ hcase
  · intro h c m eff _ ih _ hk hcase
    rw [List.countP_cons_of_neg (by simp [isOpen])] at hcase ⊢
    rw [openedNames_of_not_isOpen (by simp [isOpen])]
    cases called_of_ok hk <;> exact ih hcase
  · intro h c m f _ ih _ _ hcase
    rw [List.countP_cons_of_neg (by simp [isOpen])] at hcase ⊢
    rw [openedNames_of_not_isOpen (by simp [isOpen])]
    exact ih hcase
  · intro h s m rest eff _ ih _ hk hcase
    cases delivered_of_ok hk with
    | @initGlobal names n hn =>
      rw [List.countP_cons_of_pos rfl] at hcase ⊢
      obtain ⟨hcur, hnames⟩ : s.currentCase = s₀.currentCase + h.countP isOpen ∧
        s.proposals.map Proposal.name = s₀.proposals.map Proposal.name ++ openedNames h :=
          ih (by omega)
      rw [addU_of_lt (by omega), hcur] at hn
      cases hn
      refine ⟨rfl, ?_⟩
      simp [openedNames, hnames, Function.comp_def]
    | finalizeGlobal => exact ih hcase
    | finalizeShard => exact ih hcase
    | gather hps =>
      rw [map_name_of_addShardVotes hps]
      exact ih hcase
    | complete hps =>
      rw [map_name_of_addShardVotes hps]
      exact ih hcase
  · intro h s m rest f _ ih _ hk hcase
    cases m with
    | initGlobal names =>
      rw [List.countP_cons_of_pos rfl] at hcase
      obtain ⟨hcur, -⟩ : s.currentCase = s₀.currentCase + h.countP isOpen ∧ _ := ih (by omega)
      exact absurd hk (initGlobal_ne_error (by omega))
    | _ => exact ih hcase

/-- Gathering needs a finalization. -/
theorem finalizes_of_gather (hr : (machine X).Run G ⟨s₀, 0⟩ h c)
    (hg : h.countP isGather ≠ 0) : h.countP isFinalize ≠ 0 := by
  intro h0
  have h1 := resets_add_inFlight hr
  have h2 := shards_le_resets hr
  have h3 := gathers_add_inFlight hr
  have hreset : h.countP isReset = 0 := by omega
  rw [hreset] at h2
  omega

/-! ### When the result is written -/

/-- **The result of one finalization.** -/
structure Decided (X : Chain A) (s₀ : State A X.shardOrder) (h : History A X.shardOrder)
    (c : Config (State A X.shardOrder) (Relay X.shardOrder)) : Prop where
  /-- It is pending while an array is missing. -/
  pending : h.countP isGather < 2 ^ X.shardOrder → c.state.lastResult = pendingResult s₀ h
  /-- It is taken from the totals once all are there. -/
  decided : h.countP isGather = 2 ^ X.shardOrder → c.state.lastResult =
    ⟨topVoted c.state.proposals (pendingResult s₀ h).topVoted, c.state.currentCase⟩

omit [DecidableEq A] in
/-- A step that gathers nothing, opens nothing and leaves the global scope alone. -/
theorem Decided.frame {e : Event (Call A) (Relay X.shardOrder) (Option Bool) Fault}
    {c' : Config (State A X.shardOrder) (Relay X.shardOrder)} (hd : Decided X s₀ h c)
    (he : ¬ isGather e ∧ ¬ isOpen e) (hres : c'.state.lastResult = c.state.lastResult)
    (hps : c'.state.proposals = c.state.proposals)
    (hcur : c'.state.currentCase = c.state.currentCase) : Decided X s₀ (e :: h) c' := by
  obtain ⟨hpending, hdecided⟩ := hd
  constructor
  · rwa [List.countP_cons_of_neg he.1, pendingResult_of_not_isOpen s₀ he.2, hres]
  · rwa [List.countP_cons_of_neg he.1, pendingResult_of_not_isOpen s₀ he.2, hres, hps, hcur]

omit [DecidableEq A] in
/-- A case that is opened before anything is gathered is pending. -/
theorem decided_of_open {names : List String} {v : Option Bool}
    (hgather : h.countP isGather = 0) (hres : c.state.lastResult = ⟨"", 0⟩) :
    Decided X s₀ (.deliver (.initGlobal names) (.ok v) :: h) c := by
  have hpow : 0 < 2 ^ X.shardOrder := Nat.two_pow_pos _
  constructor
  · intro _
    rw [pendingResult, List.countP_cons_of_pos rfl, if_neg (Nat.succ_ne_zero _), hres]
  · intro h0
    rw [List.countP_cons_of_neg (by simp [isGather])] at h0
    omega

omit [DecidableEq A] in
/-- An array that is not the last leaves the result pending. -/
theorem Decided.gather {votes : List ℕ} {v : Option Bool}
    {c' : Config (State A X.shardOrder) (Relay X.shardOrder)} (hd : Decided X s₀ h c)
    (hlt : h.countP isGather < 2 ^ X.shardOrder)
    (hmore : h.countP isGather + 1 ≠ 2 ^ X.shardOrder)
    (hres : c'.state.lastResult = c.state.lastResult) :
    Decided X s₀ (.deliver (.finalizeGather votes) (.ok v) :: h) c' := by
  constructor
  · intro _
    rw [pendingResult_of_not_isOpen s₀ (by simp [isOpen]), hres]
    exact hd.pending hlt
  · intro h0
    rw [List.countP_cons_of_pos rfl] at h0
    exact absurd h0 hmore

omit [DecidableEq A] in
/-- The last array decides the result. -/
theorem Decided.complete {votes : List ℕ} {v : Option Bool}
    {c' : Config (State A X.shardOrder) (Relay X.shardOrder)} (hd : Decided X s₀ h c)
    (hlt : h.countP isGather < 2 ^ X.shardOrder)
    (hall : h.countP isGather + 1 = 2 ^ X.shardOrder)
    (hres : c'.state.lastResult =
      ⟨topVoted c'.state.proposals c.state.lastResult.topVoted, c'.state.currentCase⟩) :
    Decided X s₀ (.deliver (.finalizeGather votes) (.ok v) :: h) c' := by
  constructor
  · intro h0
    rw [List.countP_cons_of_pos rfl] at h0
    omega
  · intro _
    rw [pendingResult_of_not_isOpen s₀ (by simp [isOpen]), hres, hd.pending hlt]

/-- The result is left alone until the last array is gathered, and then taken from the totals. -/
theorem decided_of_run (hk : X.shardOrder ≤ 31) (hr : (machine X).Run G ⟨s₀, 0⟩ h c)
    (h₀ : InRange (⟨s₀, 0⟩ : Config _ (Relay X.shardOrder))) (hone : OneWave X s₀ h)
    (hcase : s₀.currentCase + h.countP isOpen < 2 ^ 32) (hopens : OpensFirst h) :
    Decided X s₀ h c := by
  have hpow : 0 < 2 ^ X.shardOrder := Nat.two_pow_pos _
  refine hr.invariant (I := fun h c => OneWave X s₀ h → s₀.currentCase + h.countP isOpen < 2 ^ 32 →
    OpensFirst h → Decided X s₀ h c) ?_ ?_ ?_ ?_ ?_ hone hcase hopens
  · intro _ _ _
    exact ⟨fun _ => rfl, fun h0 => absurd h0 (Nat.ne_of_lt hpow)⟩
  · intro h c m eff _ ih _ hm hone hcase hopens
    rw [List.countP_cons_of_neg (by simp [isOpen])] at hcase
    have ih := ih hone.tail hcase (List.pairwise_cons.mp hopens).2
    cases called_of_ok hm <;> exact ih.frame (by simp [isGather, isOpen]) rfl rfl rfl
  · intro h c m f _ ih _ _ hone hcase hopens
    rw [List.countP_cons_of_neg (by simp [isOpen])] at hcase
    exact (ih hone.tail hcase (List.pairwise_cons.mp hopens).2).frame (by simp [isGather, isOpen])
      rfl rfl rfl
  · intro h s m rest eff hr ih _ hm hone hcase hopens
    obtain ⟨hfirst, hopens⟩ := List.pairwise_cons.mp hopens
    have hle : h.countP isOpen ≤ (Event.deliver m (.ok eff.value) :: h).countP isOpen :=
      (List.sublist_cons_self _ _).countP_le
    have ih := ih hone.tail (by omega) hopens
    cases delivered_of_ok hm with
    | initGlobal =>
      -- nothing has been gathered, since no finalization has been started
      have hgather : h.countP isGather = 0 := by
        by_contra hg
        exact finalizes_of_gather hr hg (List.countP_eq_zero.mpr fun e he => (hfirst e he rfl).2)
      exact decided_of_open hgather rfl
    | finalizeGlobal => exact ih.frame (by simp [isGather, isOpen]) rfl rfl rfl
    | finalizeShard => exact ih.frame (by simp [isGather, isOpen]) rfl rfl rfl
    | gather hps hadd hmore =>
      obtain ⟨-, hratio⟩ := (wave_of_run hr h₀ hone.tail).exists_gather hr h₀ hone.tail
      cases hadd.symm.trans hratio
      rw [Ne, mul_shardShare_eq_iff hk] at hmore
      exact ih.gather (gathers_lt_of_inFlight hr hone.tail.one).2 hmore rfl
    | complete hps hadd =>
      obtain ⟨-, hratio⟩ := (wave_of_run hr h₀ hone.tail).exists_gather hr h₀ hone.tail
      have hcomplete := (mul_shardShare_eq_iff hk).mp (Except.ok.inj (hadd.symm.trans hratio)).symm
      exact ih.complete (gathers_lt_of_inFlight hr hone.tail.one).2 hcomplete rfl
  · intro h s m rest f hr ih _ hm hone hcase hopens
    have hle : h.countP isOpen ≤ (Event.deliver m (.error f) :: h).countP isOpen :=
      (List.sublist_cons_self _ _).countP_le
    have ih := ih hone.tail (by omega) (List.pairwise_cons.mp hopens).2
    cases m with
    | initGlobal names =>
      rw [List.countP_cons_of_pos rfl] at hcase
      obtain ⟨hcur, -⟩ : s.currentCase = s₀.currentCase + h.countP isOpen ∧ _ :=
        opened_of_run hr (by omega)
      exact absurd hm (initGlobal_ne_error (by omega))
    | finalizeGlobal => cases hm
    | finalizeShard t => cases hm
    | finalizeGather votes =>
      exact absurd hm ((wave_of_run hr h₀ hone.tail).gather_ne_error hr h₀ hone.tail)

/-! ### Runs with a single case -/

/-- Before the first case is opened, nothing has happened. -/
theorem nothing_before_open (hr : (machine X).Run G ⟨empty X.shardOrder weight, 0⟩ h c)
    (hopens : h.countP isOpen = 0) :
    acceptedVotes h = [] ∧ h.countP isFinalize = 0 ∧ c.state.proposals = [] := by
  refine hr.invariant (I := fun h c => h.countP isOpen = 0 →
    acceptedVotes h = [] ∧ h.countP isFinalize = 0 ∧ c.state.proposals = [])
    (fun _ => ⟨rfl, rfl, rfl⟩) ?_ ?_ ?_ ?_ hopens
  · intro h c m eff hr ih _ hk hopens
    rw [List.countP_cons_of_neg (by cases m <;> simp [isOpen])] at hopens
    have hcase : c.state.currentCase = 0 := by
      rw [(opened_of_run hr (by rw [hopens]; exact Nat.two_pow_pos 32)).1, hopens]
      rfl
    cases called_of_ok hk with
    | accept hn hvoted => omega
    | finalize hopen =>
      rw [IsVoting, hcase] at hopen
      omega
    | _ => exact ih hopens
  · intro h c m f _ ih _ _ hopens
    rw [List.countP_cons_of_neg (by cases m <;> simp [isOpen])] at hopens
    rw [acceptedVotes_other (by cases m <;> rfl),
      List.countP_cons_of_neg (by cases m <;> simp [isFinalize])]
    exact ih hopens
  · intro h s m rest eff _ ih _ hk hopens
    have hle : h.countP isOpen ≤ (Event.deliver m (.ok eff.value) :: h).countP isOpen :=
      (List.sublist_cons_self _ _).countP_le
    obtain ⟨hvotes, hfin, hps⟩ : acceptedVotes h = [] ∧ h.countP isFinalize = 0 ∧
      s.proposals = [] := ih (by omega)
    refine ⟨hvotes, by rw [List.countP_cons_of_neg (by simp [isFinalize])]; exact hfin, ?_⟩
    cases delivered_of_ok hk with
    | initGlobal =>
      rw [List.countP_cons_of_pos rfl] at hopens
      omega
    | gather hadd => exact eq_nil_of_addShardVotes (hps ▸ hadd)
    | complete hadd => exact eq_nil_of_addShardVotes (hps ▸ hadd)
    | _ => exact hps
  · intro h s m rest f _ ih _ hk hopens
    have hle : h.countP isOpen ≤ (Event.deliver m (.error f) :: h).countP isOpen :=
      (List.sublist_cons_self _ _).countP_le
    rw [acceptedVotes_other rfl, List.countP_cons_of_neg (by simp [isFinalize])]
    exact ih (by omega)

/-- A result is only ever written by gathering. -/
theorem caseNum_of_no_gather (hr : (machine X).Run G ⟨empty X.shardOrder weight, 0⟩ h c)
    (hg : h.countP isGather = 0) : c.state.lastResult.caseNum = 0 := by
  refine hr.invariant (I := fun h c => h.countP isGather = 0 → c.state.lastResult.caseNum = 0)
    (fun _ => rfl) ?_ ?_ ?_ ?_ hg
  · intro h c m eff _ ih _ hk hg
    rw [List.countP_cons_of_neg (by simp [isGather])] at hg
    cases called_of_ok hk <;> exact ih hg
  · intro h c m f _ ih _ _ hg
    rw [List.countP_cons_of_neg (by simp [isGather])] at hg
    exact ih hg
  · intro h s m rest eff _ ih _ hk hg
    cases delivered_of_ok hk with
    | initGlobal => rfl
    | gather =>
      rw [List.countP_cons_of_pos rfl] at hg
      omega
    | complete =>
      rw [List.countP_cons_of_pos rfl] at hg
      omega
    | _ => exact ih hg
  · intro h s m rest f _ ih _ _ hg
    have hle : h.countP isGather ≤ (Event.deliver m (.error f) :: h).countP isGather :=
      (List.sublist_cons_self _ _).countP_le
    exact ih (by omega)

/-- With one `init`, every accepted vote is for case 1. -/
theorem caseNum_eq_one (hr : (machine X).Run G ⟨empty X.shardOrder weight, 0⟩ h c)
    (hinit : h.countP isInit ≤ 1) : ∀ v ∈ acceptedVotes h, v.caseNum = 1 := by
  intro v hv
  have hopens := opens_add_inFlight hr
  have hlow := votedCase_lt_of_mem hr v hv
  have hvoted := (votes_ordered_of_run hr).2 v hv
  obtain ⟨hcur, hle⟩ := votedCase_le_currentCase hr (.inr (by omega))
  have := hle v.voter
  omega

omit [DecidableEq A] in
theorem carriedOver_empty (weight : A → ℕ) (i : ℕ) :
    carriedOver X (empty X.shardOrder weight) i = 0 := by
  simp [carriedOver, empty]

/-- With one `init` and at most one finalization, and weights that sum below `2 ^ 64`, everything
fits. -/
theorem oneWave_of_single_case [Fintype A]
    (hr : (machine X).Run G ⟨empty X.shardOrder weight, 0⟩ h c) (hw : ∑ a, weight a < 2 ^ 64)
    (hinit : h.countP isInit ≤ 1) (hfin : h.countP isFinalize ≤ 1) :
    OneWave X (empty X.shardOrder weight) h := by
  refine ⟨hfin, fun i => ?_⟩
  rw [carriedOver_empty, Nat.zero_add]
  exact Nat.lt_of_le_of_lt (tally_le_sum weight (voters_nodup hr (caseNum_eq_one hr hinit)) i) hw

/-- With one `init`, its case is opened before anything is finalized. -/
theorem opensFirst_of_single_case (hr : (machine X).Run G ⟨empty X.shardOrder weight, 0⟩ h c)
    (hinit : h.countP isInit ≤ 1) : OpensFirst h := by
  induction hr with
  | nil => exact .nil
  | @step h c c' e hr hs hg ih =>
    have hle : h.countP isInit ≤ (e :: h).countP isInit := (List.sublist_cons_self e h).countP_le
    refine List.pairwise_cons.mpr ⟨fun e' he' hopen => ?_, ih (hle.trans hinit)⟩
    have hopens := opens_add_inFlight (hr.step hs hg)
    rw [List.countP_cons_of_pos hopen] at hopens
    obtain ⟨hacc, hfin, -⟩ := nothing_before_open hr (by omega)
    refine ⟨fun hsome => ?_, List.countP_eq_zero.mp hfin e' he'⟩
    obtain ⟨v, hv⟩ := Option.isSome_iff_exists.mp hsome
    have hmem : v ∈ acceptedVotes h := List.mem_filterMap.mpr ⟨e', he', hv⟩
    rw [hacc] at hmem
    exact List.not_mem_nil hmem

theorem decided_of_single_case [Fintype A] (hk : X.shardOrder ≤ 31)
    (hr : (machine X).Run G ⟨empty X.shardOrder weight, 0⟩ h c) (hw : ∑ a, weight a < 2 ^ 64)
    (hinit : h.countP isInit ≤ 1) (hfin : h.countP isFinalize ≤ 1) :
    Decided X (empty X.shardOrder weight) h c := by
  have hopens := opens_add_inFlight hr
  refine decided_of_run hk hr (inRange_empty weight) (oneWave_of_single_case hr hw hinit hfin) ?_
    (opensFirst_of_single_case hr hinit)
  change 0 + h.countP isOpen < 2 ^ 32
  omega

/-- With one `init`, one finalization and nothing left in flight, the totals are the timely
votes. -/
theorem totals_of_single_case [Fintype A]
    (hr : (machine X).Run G ⟨empty X.shardOrder weight, 0⟩ h c) (hw : ∑ a, weight a < 2 ^ 64)
    (hinit : h.countP isInit ≤ 1) (hfin : h.countP isFinalize = 1) (hq : c.inFlight = 0) (i : ℕ) :
    totalAt c.state.proposals i = tally weight i (timelyVotes X h) := by
  rw [totals_of_quiescent hr (inRange_empty weight) (oneWave_of_single_case hr hw hinit hfin.le)
    hfin hq, carriedOver_empty, Nat.zero_add]
  rfl

/-! ### One case, from deployment to its result -/

omit [DecidableEq A] in
theorem tally_perm (weight : A → ℕ) {vs ws : List (Vote A)} (hp : vs.Perm ws) (i : ℕ) :
    tally weight i vs = tally weight i ws :=
  (hp.map _).sum_eq

/-- A list of proposals is its names and its totals. -/
theorem proposals_ext {ps qs : List Proposal}
    (hnames : ps.map Proposal.name = qs.map Proposal.name)
    (htot : ∀ i, totalAt ps i = totalAt qs i) : ps = qs := by
  have hlen : ps.length = qs.length := by simpa using congrArg List.length hnames
  refine List.ext_getElem hlen fun i hi hi' => ?_
  have hname : ps[i].name = qs[i].name := by
    have := congrArg (·[i]?) hnames
    simpa [hi, hi'] using this
  have ht := htot i
  rw [totalAt_eq hi, totalAt_eq hi'] at ht
  exact Proposal.ext hname ht

/-- The result the totals give: nothing if all are 0, and else the first of the maximal ones. -/
theorem topVoted_cases (ps : List Proposal) (top : String) :
    ((∀ i, totalAt ps i = 0) ∧ topVoted ps top = top) ∨
      ∃ (i : ℕ) (hi : i < ps.length), IsFirstMax (totalAt ps) ps.length i ∧ 0 < totalAt ps i ∧
        topVoted ps top = ps[i].name := by
  rcases scanMax_cases Proposal.totalVotedWeight Proposal.name ps (totalAt ps)
    (fun i hi => (totalAt_eq hi).symm) top 0 with ⟨hle, hr⟩ | ⟨i, hi, hmax, hlt, hr⟩
  · refine .inl ⟨fun i => ?_, congrArg Prod.fst hr⟩
    by_cases hi : i < ps.length
    · exact Nat.le_zero.mp (hle i hi)
    · rw [totalAt, List.getD_eq_default _ _ (by simpa using hi)]
  · exact .inr ⟨i, hi, hmax, hlt, congrArg Prod.fst hr⟩

/-- A complete case, run from a state `s₀` with nothing in flight: one `init` is executed, votes are
accepted until one `finalize` is called, and every relay is delivered. Votes and finalizations that
are rejected may stand anywhere. -/
structure CompleteCase (X : Chain A) (s₀ : State A X.shardOrder) (h : History A X.shardOrder)
    (c : Config (State A X.shardOrder) (Relay X.shardOrder)) : Prop where
  /-- It is a run. -/
  run : (machine X).Run Anything ⟨s₀, 0⟩ h c
  /-- One `init` passes. -/
  init : h.countP isInit = 1
  /-- One `finalize` passes. -/
  finalize : h.countP isFinalize = 1
  /-- The case is opened before a vote is accepted. -/
  opensFirst : OpensFirst h
  /-- No vote is accepted after the finalization. -/
  votesFirst : VotesFirst h
  /-- Nothing is left in flight. -/
  quiet : c.inFlight = 0

namespace CompleteCase

theorem opens (hs : CompleteCase X s₀ h c) : h.countP isOpen = 1 := by
  have hopens := opens_add_inFlight hs.run
  rwa [Config.carried_of_quiescent _ hs.quiet, Nat.zero_add, hs.init] at hopens

theorem gathers (hs : CompleteCase X s₀ h c) : h.countP isGather = 2 ^ X.shardOrder := by
  rw [(counts_of_quiescent hs.run hs.quiet).2, hs.finalize, Nat.mul_one]

theorem opened (hs : CompleteCase X s₀ h c) (hcase : s₀.currentCase + 1 < 2 ^ 32) :
    c.state.currentCase = s₀.currentCase + 1 ∧
      c.state.proposals.map Proposal.name = s₀.proposals.map Proposal.name ++ openedNames h := by
  have hrun := opened_of_run hs.run (by rwa [hs.opens])
  rwa [hs.opens] at hrun

theorem totals (hs : CompleteCase X s₀ h c)
    (h₀ : InRange (⟨s₀, 0⟩ : Config _ (Relay X.shardOrder))) (hone : OneWave X s₀ h) (i : ℕ) :
    totalAt c.state.proposals i = carriedOver X s₀ i + tally s₀.weight i (acceptedVotes h) := by
  rw [totals_of_quiescent hs.run h₀ hone hs.finalize hs.quiet, timelyVotes_eq hs.run hs.votesFirst]

/-- What is known at every point of a case. -/
theorem decided_of_suffix (hs : CompleteCase X s₀ h c) (hk : X.shardOrder ≤ 31)
    (h₀ : InRange (⟨s₀, 0⟩ : Config _ (Relay X.shardOrder))) (hone : OneWave X s₀ h)
    (hcase : s₀.currentCase + 1 < 2 ^ 32) {h₁ : History A X.shardOrder}
    {c₁ : Config (State A X.shardOrder) (Relay X.shardOrder)} (hsuf : h₁ <:+ h)
    (hr : (machine X).Run Anything ⟨s₀, 0⟩ h₁ c₁) : Decided X s₀ h₁ c₁ := by
  have hopens : h₁.countP isOpen ≤ 1 := hsuf.sublist.countP_le.trans hs.opens.le
  exact decided_of_run hk hr h₀ (hone.sublist hsuf.sublist) (by omega)
    (hs.opensFirst.sublist hsuf.sublist)

theorem result (hs : CompleteCase X s₀ h c) (hk : X.shardOrder ≤ 31)
    (h₀ : InRange (⟨s₀, 0⟩ : Config _ (Relay X.shardOrder))) (hone : OneWave X s₀ h)
    (hcase : s₀.currentCase + 1 < 2 ^ 32) :
    c.state.lastResult = ⟨topVoted c.state.proposals "", c.state.currentCase⟩ := by
  have hd := (hs.decided_of_suffix hk h₀ hone hcase List.suffix_rfl hs.run).decided hs.gathers
  rwa [pendingResult, hs.opens, if_neg Nat.one_ne_zero] at hd

/-- `shardGather_gather` returned true for the last array gathered and for no other. -/
theorem gather_value (hs : CompleteCase X s₀ h c) (hk : X.shardOrder ≤ 31)
    (h₀ : InRange (⟨s₀, 0⟩ : Config _ (Relay X.shardOrder))) (hone : OneWave X s₀ h)
    {h₂ h₁ : History A X.shardOrder} {votes : List ℕ} {r : Except Fault (Option Bool)}
    (heq : h = h₂ ++ .deliver (.finalizeGather votes) r :: h₁) :
    r = .ok (some (decide (h₂.countP isGather = 0))) := by
  have hvalue := (wave_of_run hs.run h₀ hone).values h₂ h₁ votes r heq
  have hcount := hs.gathers
  rw [heq, List.countP_append, List.countP_cons_of_pos rfl] at hcount
  rw [hvalue]
  congr 2
  rw [decide_eq_decide, mul_shardShare_eq_iff hk]
  omega

end CompleteCase

/-- **One case.** Take `2 ^ k` shards with `k ≤ 31`, any placement of the addresses, and weights
that sum below `2 ^ 64`. In every run of one case from deployment, whatever the order in which its
relays are delivered:

* every array gathered is gathered without a fault, `shardGather_gather` returns true for the last
  one and for no other, and the result is blank until then;
* each total is the sum of the weights of the addresses whose vote for it was accepted;
* the result is that of the current case, and names the first proposal of maximal total, or none if
  all totals are 0;
* any other run of one case with the same names and the same accepted votes ends with the same
  totals and the same result. -/
theorem ballot_single_case [Fintype A] (hs : CompleteCase X (empty X.shardOrder weight) h c)
    (hk : X.shardOrder ≤ 31) (hw : ∑ a, weight a < 2 ^ 64) :
    (h.countP isGather = 2 ^ X.shardOrder ∧
      (∀ h₂ votes r h₁, h = h₂ ++ .deliver (.finalizeGather votes) r :: h₁ →
        r = .ok (some (decide (h₂.countP isGather = 0)))) ∧
      ∀ h₁ c₁, h₁ <:+ h → (machine X).Run Anything ⟨empty X.shardOrder weight, 0⟩ h₁ c₁ →
        h₁.countP isGather < 2 ^ X.shardOrder → c₁.state.lastResult = ⟨"", 0⟩) ∧
    (∀ i (hi : i < c.state.proposals.length), c.state.proposals[i].totalVotedWeight =
      ∑ a with ∃ v ∈ acceptedVotes h, v.voter = a ∧ v.proposalIndex = i, weight a) ∧
    (c.state.lastResult.caseNum = c.state.currentCase ∧
      ((∀ i, totalAt c.state.proposals i = 0) ∧ c.state.lastResult.topVoted = "" ∨
        ∃ (i : ℕ) (hi : i < c.state.proposals.length),
          IsFirstMax (totalAt c.state.proposals) c.state.proposals.length i ∧
          0 < totalAt c.state.proposals i ∧
          c.state.lastResult.topVoted = c.state.proposals[i].name)) ∧
    ∀ h' c', CompleteCase X (empty X.shardOrder weight) h' c' → openedNames h' = openedNames h →
      (acceptedVotes h').Perm (acceptedVotes h) →
      c'.state.proposals = c.state.proposals ∧ c'.state.lastResult = c.state.lastResult := by
  have h₀ : InRange (⟨empty X.shardOrder weight, 0⟩ : Config _ (Relay X.shardOrder)) :=
    inRange_empty weight
  have hone : ∀ {h c}, CompleteCase X (empty X.shardOrder weight) h c →
      OneWave X (empty X.shardOrder weight) h :=
    fun hs => oneWave_of_single_case hs.run hw hs.init.le hs.finalize.le
  have hcase : (empty X.shardOrder weight).currentCase + 1 < 2 ^ 32 :=
    Nat.one_lt_two_pow (by decide)
  have htot : ∀ {h c}, CompleteCase X (empty X.shardOrder weight) h c →
      ∀ i, totalAt c.state.proposals i = tally weight i (acceptedVotes h) := by
    intro h c hs i
    rw [hs.totals h₀ (hone hs), carriedOver_empty, Nat.zero_add]
    rfl
  have hnodup : ((acceptedVotes h).map Vote.voter).Nodup :=
    voters_nodup hs.run (caseNum_eq_one hs.run hs.init.le)
  refine ⟨⟨hs.gathers, fun h₂ votes r h₁ => hs.gather_value hk h₀ (hone hs), ?_⟩, ?_, ?_, ?_⟩
  · intro h₁ c₁ hsuf hr hlt
    rw [(hs.decided_of_suffix hk h₀ (hone hs) hcase hsuf hr).pending hlt, pendingResult_empty]
  · intro i hi
    rw [← totalAt_eq hi, htot hs, tally_eq_sum weight hnodup]
  · rw [hs.result hk h₀ (hone hs) hcase]
    exact ⟨rfl, topVoted_cases c.state.proposals ""⟩
  · intro h' c' hs' hnames hvotes
    obtain ⟨hcur, hps⟩ := hs.opened hcase
    obtain ⟨hcur', hps'⟩ := hs'.opened hcase
    have hps : c'.state.proposals = c.state.proposals := by
      refine proposals_ext (by rw [hps', hps, hnames]) fun i => ?_
      rw [htot hs', htot hs, tally_perm weight hvotes]
    refine ⟨hps, ?_⟩
    rw [hs'.result hk h₀ (hone hs') hcase, hs.result hk h₀ (hone hs) hcase, hps, hcur', hcur]

end Runs

/-- Two votes on two shards, whose arrays are gathered in the order opposite to their sending. -/
theorem ballot_single_case_twoShards : ∃ h c,
    CompleteCase (twoShards .trap) (empty 1 fun a => a.val + 1) h c ∧
      acceptedVotes h = [⟨1, 1, 1⟩, ⟨0, 0, 1⟩] ∧ c.state.lastResult = ⟨"Yarn", 1⟩ ∧
      (∀ h₂ votes r h₁, h = h₂ ++ .deliver (.finalizeGather votes) r :: h₁ →
        r = .ok (some (decide (h₂.countP isGather = 0)))) ∧
      ∀ i (hi : i < c.state.proposals.length), c.state.proposals[i].totalVotedWeight =
        ∑ a : Fin 2 with ∃ v ∈ acceptedVotes h, v.voter = a ∧ v.proposalIndex = i, (a.val + 1) := by
  obtain ⟨⟨h, c⟩, hx, hinit, hfin, hopens, hvotes, hq, hacc, hres⟩ :
      ∃ r ∈ (machine (twoShards .trap)).exec Anything ⟨empty 1 fun a => a.val + 1, 0⟩
        [.call (.init 0 ["Spring", "Yarn"]), .deliver (.initGlobal ["Spring", "Yarn"]),
          .call (.vote 0 0 1), .call (.vote 1 1 1), .call (.finalize 0), .deliver .finalizeGlobal,
          .deliver (.finalizeShard 0), .deliver (.finalizeShard 1),
          .deliver (.finalizeGather [0, 2]), .deliver (.finalizeGather [1, 0])],
        r.1.countP isInit = 1 ∧ r.1.countP isFinalize = 1 ∧ OpensFirst r.1 ∧ VotesFirst r.1 ∧
          r.2.inFlight = 0 ∧ acceptedVotes r.1 = [⟨1, 1, 1⟩, ⟨0, 0, 1⟩] ∧
          r.2.state.lastResult = ⟨"Yarn", 1⟩ := by decide
  have hs : CompleteCase (twoShards .trap) (empty 1 fun a => a.val + 1) h c :=
    ⟨Machine.exec_run hx, hinit, hfin, hopens, hvotes, hq⟩
  obtain ⟨⟨-, hvalues, -⟩, htotals, -⟩ := ballot_single_case hs (by decide) (by decide)
  exact ⟨h, c, hs, hacc, hres, hvalues, htotals⟩

end Ballot

end Preda

end RelayContracts
