import RelayContracts.Preda.BallotTally

/-!
# What a Ballot run can interleave

`init` and `finalize` check `is_voting()` in the scope of the calling address and act in the global
scope one or more relays later; `vote` does not check it at all. Each of these leaves a window.

* Two finalizations can both pass the check before either has gathered, and every shard's array is
  then added twice. The totals are right if a finalization is only called with nothing in flight
  (`finalized_once`).
* A vote accepted after its shard has sent its array is not in the totals. No vote is lost exactly
  if the late votes weigh nothing (`no_vote_lost_iff`).
* Two `init` calls can both pass the check before either has opened its case, and the second then
  opens a case inside an open one. Cases follow each other if `init` is only called with no `init`
  in flight (`one_case_at_a_time`).
-/

namespace RelayContracts

namespace Preda

namespace Ballot

open RelayMachine

section Runs

variable {A : Type} {k : ℕ} [DecidableEq A] {X : Chain A}
  {c : Config (State A X.shardOrder) (Relay X.shardOrder)}
  {G : History A X.shardOrder → Config (State A X.shardOrder) (Relay X.shardOrder) →
    Event (Call A) (Relay X.shardOrder) (Option Bool) Fault → Prop}
  {h : History A X.shardOrder} {weight : A → ℕ}

/-! ### Two finalizations -/

/-- A finalization is only called with nothing in flight. -/
def FinalizeAlone (_ : History A k) (c : Config (State A k) (Relay k))
    (e : Event (Call A) (Relay k) (Option Bool) Fault) : Prop :=
  isFinalize e → c.inFlight = 0

instance (h : History A k) (c : Config (State A k) (Relay k))
    (e : Event (Call A) (Relay k) (Option Bool) Fault) : Decidable (FinalizeAlone h c e) :=
  inferInstanceAs (Decidable (_ → _))

/-- With more than `2 ^ 31` shards the share of a shard is 0, and no case is ever decided. -/
theorem undecided_of_run (hk : 31 < X.shardOrder)
    (hr : (machine X).Run G ⟨empty X.shardOrder weight, 0⟩ h c) :
    c.state.shardGatherRatio = 0 ∧ c.state.lastResult.caseNum = 0 := by
  refine hr.invariant (I := fun _ c => c.state.shardGatherRatio = 0 ∧
    c.state.lastResult.caseNum = 0) ⟨rfl, rfl⟩ ?_ ?_ ?_ ?_
  · intro h c m eff _ ih _ hm
    cases called_of_ok hm <;> exact ih
  · exact fun _ ih _ _ => ih
  · intro h s m rest eff _ ih _ hm
    obtain ⟨hratio, hcase⟩ : s.shardGatherRatio = 0 ∧ s.lastResult.caseNum = 0 := ih
    have hadd : addU X.overflow 32 s.shardGatherRatio (shardShare X.shardOrder) = .ok 0 := by
      rw [hratio, shardShare_of_gt hk, addU_of_lt (by decide)]
    cases delivered_of_ok hm with
    | initGlobal => exact ⟨hratio, rfl⟩
    | finalizeGlobal => exact ⟨rfl, hcase⟩
    | finalizeShard => exact ⟨hratio, hcase⟩
    | gather hps hr =>
      cases hr.symm.trans hadd
      exact ⟨rfl, hcase⟩
    | complete hps hr => cases hr.symm.trans hadd
  · exact fun _ ih _ _ => ih

/-- With one `init`, a second finalization cannot pass once the first is done. -/
theorem finalizes_le_one [Fintype A] (hk : X.shardOrder ≤ 31)
    (hr : (machine X).Run FinalizeAlone ⟨empty X.shardOrder weight, 0⟩ h c)
    (hw : ∑ a, weight a < 2 ^ 64) (hinit : h.countP isInit ≤ 1) : h.countP isFinalize ≤ 1 := by
  refine hr.invariant (I := fun h _ => h.countP isInit ≤ 1 → h.countP isFinalize ≤ 1)
    (fun _ => Nat.zero_le 1) ?_ ?_ ?_ ?_ hinit
  · intro h c m eff hr ih hg hm hinit
    have hle : h.countP isInit ≤ (Event.call m (.ok eff.value) :: h).countP isInit :=
      (List.sublist_cons_self _ _).countP_le
    have ih := ih (hle.trans hinit)
    cases called_of_ok hm with
    | finalize hopen =>
      -- a finalization that has gathered everything has closed the case
      have hq : c.inFlight = 0 := hg rfl
      rw [List.countP_cons_of_pos rfl]
      by_contra hfin
      have hone : h.countP isFinalize = 1 := by omega
      have hgathers := (counts_of_quiescent hr hq).2
      rw [hone, Nat.mul_one] at hgathers
      have hres := (decided_of_single_case hk hr hw (hle.trans hinit) ih).decided hgathers
      rw [IsVoting, hres] at hopen
      exact Nat.lt_irrefl _ hopen
    | _ =>
      rw [List.countP_cons_of_neg (by simp [isFinalize])]
      exact ih
  · intro h c m f _ ih _ _ hinit
    rw [List.countP_cons_of_neg (by cases m <;> simp [isInit])] at hinit
    rw [List.countP_cons_of_neg (by cases m <;> simp [isFinalize])]
    exact ih hinit
  · intro h s m rest eff _ ih _ _ hinit
    rw [List.countP_cons_of_neg (by simp [isInit])] at hinit
    rw [List.countP_cons_of_neg (by simp [isFinalize])]
    exact ih hinit
  · intro h s m rest f _ ih _ _ hinit
    rw [List.countP_cons_of_neg (by simp [isInit])] at hinit
    rw [List.countP_cons_of_neg (by simp [isFinalize])]
    exact ih hinit

/-- **Finalizing one at a time.** Take any run with one `init`, votes and then any number of
finalizations, in which a finalization is only called with nothing in flight. In every state of it
with nothing in flight and the case closed, each total is the weight of the votes accepted for
it. -/
theorem finalized_once [Fintype A]
    (hr : (machine X).Run FinalizeAlone ⟨empty X.shardOrder weight, 0⟩ h c)
    (hw : ∑ a, weight a < 2 ^ 64) (hinit : h.countP isInit ≤ 1) (hvotes : VotesFirst h)
    (hq : c.inFlight = 0) (hclosed : c.state.lastResult.caseNum = c.state.currentCase) (i : ℕ) :
    totalAt c.state.proposals i = tally weight i (acceptedVotes h) := by
  have hopens := opens_add_inFlight hr
  have hcur := (opened_of_run hr (show 0 + h.countP isOpen < 2 ^ 32 by omega)).1
  by_cases hopen : h.countP isOpen = 0
  · obtain ⟨hacc, -, hps⟩ := nothing_before_open hr hopen
    rw [hacc, hps]
    rfl
  · have hcase : c.state.lastResult.caseNum ≠ 0 := by
      rw [hclosed, hcur]
      exact Nat.ne_of_gt (Nat.lt_of_lt_of_le (Nat.pos_of_ne_zero hopen) (Nat.le_add_left _ _))
    have hk : X.shardOrder ≤ 31 := by
      by_contra hk
      exact hcase (undecided_of_run (Nat.lt_of_not_le hk) hr).2
    have hfin : h.countP isFinalize ≠ 0 :=
      finalizes_of_gather hr fun hg => hcase (caseNum_of_no_gather hr hg)
    have hone : h.countP isFinalize = 1 := by
      have := finalizes_le_one hk hr hw hinit
      omega
    rw [totals_of_single_case hr hw hinit hone hq, timelyVotes_eq hr hvotes]

/-- Two finalizations that both pass the check before either has gathered add the shard's array
twice. -/
theorem finalized_twice : ¬ ∀ h c,
    (machine (oneShard .trap)).Run Anything ⟨empty 0 fun _ => 1, 0⟩ h c →
      h.countP isInit ≤ 1 → VotesFirst h → c.inFlight = 0 →
      c.state.lastResult.caseNum = c.state.currentCase →
      ∀ i, totalAt c.state.proposals i = tally (fun _ => 1) i (acceptedVotes h) := by
  intro hall
  obtain ⟨⟨h, c⟩, hx, hinit, hvotes, hq, hclosed, hacc, htot⟩ :
      ∃ r ∈ (machine (oneShard .trap)).exec Anything ⟨empty 0 fun _ => 1, 0⟩
        [.call (.init 0 ["Spring"]), .deliver (.initGlobal ["Spring"]), .call (.vote 0 0 1),
          .call (.finalize 0), .call (.finalize 1), .deliver .finalizeGlobal,
          .deliver (.finalizeShard 0), .deliver (.finalizeGather [1]), .deliver .finalizeGlobal,
          .deliver (.finalizeShard 0), .deliver (.finalizeGather [1])],
        r.1.countP isInit = 1 ∧ VotesFirst r.1 ∧ r.2.inFlight = 0 ∧
          r.2.state.lastResult.caseNum = r.2.state.currentCase ∧
          acceptedVotes r.1 = [⟨0, 0, 1⟩] ∧ totalAt r.2.state.proposals 0 = 2 := by decide
  have htally := hall h c (Machine.exec_run hx) hinit.le hvotes hq hclosed 0
  rw [hacc] at htally
  exact absurd (htot.symm.trans htally) (by decide)

/-- A second finalization after the first is done: it does not pass. -/
theorem finalized_once_oneShard : ∃ h c,
    (machine (oneShard .trap)).Run FinalizeAlone ⟨empty 0 fun _ => 1, 0⟩ h c ∧
      calls h = [.finalize 1, .finalize 0, .vote 0 0 1, .init 0 ["Spring"]] ∧
      h.countP isFinalize = 1 ∧ acceptedVotes h = [⟨0, 0, 1⟩] ∧
      ∀ i, totalAt c.state.proposals i = tally (fun _ => 1) i (acceptedVotes h) := by
  obtain ⟨⟨h, c⟩, hx, hinit, hvotes, hq, hclosed, hacc, hcalls, hfin⟩ :
      ∃ r ∈ (machine (oneShard .trap)).exec FinalizeAlone ⟨empty 0 fun _ => 1, 0⟩
        [.call (.init 0 ["Spring"]), .deliver (.initGlobal ["Spring"]), .call (.vote 0 0 1),
          .call (.finalize 0), .deliver .finalizeGlobal, .deliver (.finalizeShard 0),
          .deliver (.finalizeGather [1]), .call (.finalize 1)],
        r.1.countP isInit = 1 ∧ VotesFirst r.1 ∧ r.2.inFlight = 0 ∧
          r.2.state.lastResult.caseNum = r.2.state.currentCase ∧
          acceptedVotes r.1 = [⟨0, 0, 1⟩] ∧
          calls r.1 = [.finalize 1, .finalize 0, .vote 0 0 1, .init 0 ["Spring"]] ∧
          r.1.countP isFinalize = 1 := by decide
  have hr := Machine.exec_run hx
  exact ⟨h, c, hr, hcalls, hfin, hacc, finalized_once hr (by decide) hinit.le hvotes hq hclosed⟩

/-! ### Late votes -/

/-- **No vote is lost exactly if the late votes weigh nothing.** Take any interleaving of votes
with one `init` and one `finalize`, and any state of it with nothing in flight in which case 1 has
a result. Every accepted vote is in the totals if and only if each vote accepted after its shard
had sent its array is of weight 0. -/
theorem no_vote_lost_iff [Fintype A]
    (hr : (machine X).Run Anything ⟨empty X.shardOrder weight, 0⟩ h c)
    (hw : ∑ a, weight a < 2 ^ 64) (hinit : h.countP isInit ≤ 1) (hfin : h.countP isFinalize ≤ 1)
    (hq : c.inFlight = 0) (hclosed : c.state.lastResult.caseNum = 1) :
    (∀ i, totalAt c.state.proposals i = tally weight i (acceptedVotes h)) ↔
      ∀ v ∈ lateVotes X h, weight v.voter = 0 := by
  have hgather : h.countP isGather ≠ 0 := fun h0 => by
    rw [caseNum_of_no_gather hr h0] at hclosed
    omega
  have hone : h.countP isFinalize = 1 := by
    have := finalizes_of_gather hr hgather
    omega
  rw [← tally_eq_zero_iff weight]
  refine forall_congr' fun i => ?_
  rw [totals_of_single_case hr hw hinit hone hq, ← tally_timelyVotes_add X]
  omega

/-- A vote between the shard's array being sent and being gathered is accepted, and the total it is
for ends at 0. -/
theorem accepted_vote_lost : ¬ ∀ h c,
    (machine (oneShard .trap)).Run Anything ⟨empty 0 fun _ => 1, 0⟩ h c →
      h.countP isInit ≤ 1 → h.countP isFinalize ≤ 1 → c.inFlight = 0 →
      c.state.lastResult.caseNum = 1 → ∀ v ∈ acceptedVotes h, v.caseNum = 1 →
      1 ≤ totalAt c.state.proposals v.proposalIndex := by
  intro hall
  obtain ⟨⟨h, c⟩, hx, hinit, hfin, hq, hcase, hmem, htot⟩ :
      ∃ r ∈ (machine (oneShard .trap)).exec Anything ⟨empty 0 fun _ => 1, 0⟩
        [.call (.init 0 ["Spring"]), .deliver (.initGlobal ["Spring"]), .call (.finalize 0),
          .deliver .finalizeGlobal, .deliver (.finalizeShard 0), .call (.vote 1 0 1),
          .deliver (.finalizeGather [])],
        r.1.countP isInit = 1 ∧ r.1.countP isFinalize = 1 ∧ r.2.inFlight = 0 ∧
          r.2.state.lastResult.caseNum = 1 ∧ ⟨1, 0, 1⟩ ∈ acceptedVotes r.1 ∧
          totalAt r.2.state.proposals 0 = 0 := by decide
  have hle : 1 ≤ totalAt c.state.proposals 0 :=
    hall h c (Machine.exec_run hx) hinit.le hfin.le hq hcase ⟨1, 0, 1⟩ hmem rfl
  exact absurd (hle.trans_eq htot) (by decide)

/-- A run with a timely vote and, after the shard's array was sent, one without weight. -/
theorem no_vote_lost_iff_oneShard : ∃ h c,
    (machine (oneShard .trap)).Run Anything ⟨empty 0 fun a => 1 - a.val, 0⟩ h c ∧
      acceptedVotes h = [⟨1, 0, 1⟩, ⟨0, 0, 1⟩] ∧ lateVotes (oneShard .trap) h = [⟨1, 0, 1⟩] ∧
      ∀ i, totalAt c.state.proposals i = tally (fun a : Fin 2 => 1 - a.val) i
        (acceptedVotes h) := by
  obtain ⟨⟨h, c⟩, hx, hinit, hfin, hq, hcase, hvotes, hlate⟩ :
      ∃ r ∈ (machine (oneShard .trap)).exec Anything ⟨empty 0 fun a => 1 - a.val, 0⟩
        [.call (.init 0 ["Spring"]), .deliver (.initGlobal ["Spring"]), .call (.vote 0 0 1),
          .call (.finalize 0), .deliver .finalizeGlobal, .deliver (.finalizeShard 0),
          .call (.vote 1 0 1), .deliver (.finalizeGather [1])],
        r.1.countP isInit = 1 ∧ r.1.countP isFinalize = 1 ∧ r.2.inFlight = 0 ∧
          r.2.state.lastResult.caseNum = 1 ∧ acceptedVotes r.1 = [⟨1, 0, 1⟩, ⟨0, 0, 1⟩] ∧
          lateVotes (oneShard .trap) r.1 = [⟨1, 0, 1⟩] := by decide
  have hr := Machine.exec_run hx
  refine ⟨h, c, hr, hvotes, hlate, ?_⟩
  refine (no_vote_lost_iff hr (by decide) hinit.le hfin.le hq hcase).mpr ?_
  rw [hlate]
  simp

/-! ### Two openings -/

/-- `init` only passes with no other `init` in flight. -/
def InitAlone (_ : History A k) (c : Config (State A k) (Relay k))
    (e : Event (Call A) (Relay k) (Option Bool) Fault) : Prop :=
  isInit e → c.carried openings = 0

instance (h : History A k) (c : Config (State A k) (Relay k))
    (e : Event (Call A) (Relay k) (Option Bool) Fault) : Decidable (InitAlone h c e) :=
  inferInstanceAs (Decidable (_ → _))

/-- The result is never ahead of the current case. -/
theorem caseNum_le_of_run (hr : (machine X).Run G ⟨empty X.shardOrder weight, 0⟩ h c) :
    c.state.lastResult.caseNum ≤ c.state.currentCase := by
  refine hr.invariant (I := fun _ c => c.state.lastResult.caseNum ≤ c.state.currentCase)
    (Nat.le_refl 0) ?_ ?_ ?_ ?_
  · intro h c m eff _ ih _ hm
    cases called_of_ok hm <;> exact ih
  · exact fun _ ih _ _ => ih
  · intro h s m rest eff _ ih _ hm
    cases delivered_of_ok hm with
    | initGlobal => exact Nat.zero_le _
    | complete => exact Nat.le_refl _
    | _ => exact ih
  · exact fun _ ih _ _ => ih

/-- At most one opening is in flight, and while one is, no case is open. -/
def ClosedWhileOpening (c : Config (State A k) (Relay k)) : Prop :=
  c.carried openings ≤ 1 ∧ (c.carried openings ≠ 0 → ¬ IsVoting c.state)

omit [DecidableEq A] in
theorem ClosedWhileOpening.frame {c c' : Config (State A k) (Relay k)}
    (hc : ClosedWhileOpening c) (hle : c'.carried openings ≤ c.carried openings)
    (hv : IsVoting c'.state → IsVoting c.state) : ClosedWhileOpening c' :=
  ⟨hle.trans hc.1, fun hne hvote => hc.2 (by omega) (hv hvote)⟩

theorem closedWhileOpening_of_run
    (hr : (machine X).Run InitAlone ⟨empty X.shardOrder weight, 0⟩ h c) :
    ClosedWhileOpening c := by
  refine hr.invariant (I := fun _ c => ClosedWhileOpening c) (by simp [ClosedWhileOpening])
    ?_ ?_ ?_ ?_
  · intro h c m eff _ ih hg hm
    cases called_of_ok hm with
    | init hopen =>
      have hnone : (c.inFlight.map openings).sum = 0 := hg rfl
      exact ⟨by rw [Config.carried_add, hnone]; exact Nat.le_refl 1, fun _ => hopen⟩
    | _ => exact ih.frame (by rw [Config.carried_add]; exact Nat.le_refl _) id
  · exact fun _ ih _ _ => ih
  · intro h s m rest eff _ ih _ hm
    cases delivered_of_ok hm with
    | initGlobal =>
      -- it was the only one
      have hone : 1 + (rest.map openings).sum ≤ 1 := by simpa [openings] using ih.1
      have hnone : (rest.map openings).sum = 0 := by omega
      refine ⟨?_, fun hne => absurd ?_ hne⟩
      · rw [Config.carried_add, hnone]
        exact Nat.zero_le 1
      · rw [Config.carried_add, hnone]
        rfl
    | complete =>
      refine ⟨?_, fun _ => Nat.lt_irrefl _⟩
      simpa [Config.carried, openings] using ih.1
    | _ => exact ih.frame (by simp [Config.carried, openings, Function.comp_def]) id
  · intro h s m rest f _ ih _ _
    exact ih.frame (by rw [Config.carried_cons]; exact Nat.le_add_left _ _) id

/-- Unless `current_case` wraps around, it is positive after an increment. -/
theorem pos_of_increment (hr : (machine X).Run G ⟨empty X.shardOrder weight, 0⟩ h c)
    (hwrap : X.overflow = .trap ∨ h.countP isOpen + 1 < 2 ^ 32) {n : ℕ}
    (hn : addU X.overflow 32 c.state.currentCase 1 = .ok n) : 0 < n := by
  rcases hwrap with htrap | hlt
  · rw [htrap] at hn
    obtain ⟨-, rfl⟩ := addU_trap_eq_ok.mp hn
    exact Nat.succ_pos _
  · have hcur := (opened_of_run hr (show 0 + h.countP isOpen < 2 ^ 32 by omega)).1
    have hcur : c.state.currentCase = 0 + h.countP isOpen := hcur
    rw [addU_of_lt (by omega)] at hn
    cases hn
    exact Nat.succ_pos _

/-- Once a case is opened, it stays open until a gathering completes. -/
theorem voting_since_open (hr : (machine X).Run G ⟨empty X.shardOrder weight, 0⟩ h c)
    (hwrap : X.overflow = .trap ∨ h.countP isOpen < 2 ^ 32) {h₂ h₁ : History A X.shardOrder}
    {names : List String} {v : Option Bool}
    (heq : h = h₂ ++ .deliver (.initGlobal names) (.ok v) :: h₁)
    (hnone : ∀ votes, .deliver (.finalizeGather votes) (.ok (some true)) ∉ h₂) :
    IsVoting c.state := by
  induction hr generalizing h₂ with
  | nil => simp at heq
  | @step h c c' e hr hs hg ih =>
    have hle : h.countP isOpen ≤ (e :: h).countP isOpen := (List.sublist_cons_self e h).countP_le
    -- the step itself opens a case, or a case was open before it and it does not close it
    have hopened : (∃ names v, e = .deliver (.initGlobal names) (.ok v)) → IsVoting c'.state := by
      rintro ⟨names, v, rfl⟩
      rw [List.countP_cons_of_pos rfl] at hwrap
      cases hs with
      | deliverOk hm hk =>
        cases delivered_of_ok hk with
        | initGlobal hn => exact pos_of_increment hr hwrap hn
    cases h₂ with
    | nil => exact hopened ⟨names, v, (List.cons.inj heq).1⟩
    | cons e' h₂ =>
      obtain ⟨rfl, rfl⟩ := List.cons.inj heq
      have ih : IsVoting c.state := ih (hwrap.imp_right fun hlt => by omega) rfl
        fun votes hmem => hnone votes (List.mem_cons_of_mem _ hmem)
      cases hs with
      | callOk hk => cases called_of_ok hk <;> exact ih
      | callError => exact ih
      | deliverOk hm hk =>
        cases delivered_of_ok hk with
        | initGlobal hn => exact hopened ⟨_, _, rfl⟩
        | complete => exact absurd (List.mem_cons_self ..) (hnone _)
        | _ => exact ih
      | deliverError => exact ih

/-- **One case at a time.** If `init` only passes with no other `init` in flight, then whenever the
global block of an `init` is executed the result is that of the current case, so no case is open;
and, unless `current_case` wraps around, a gathering has completed since any earlier increment. -/
theorem one_case_at_a_time (hr : (machine X).Run InitAlone ⟨empty X.shardOrder weight, 0⟩ h c)
    {names : List String} {r : Except Fault (Option Bool)}
    {c' : Config (State A X.shardOrder) (Relay X.shardOrder)}
    (hs : (machine X).Step c (.deliver (.initGlobal names) r) c') :
    c.state.lastResult.caseNum = c.state.currentCase ∧
    ∀ h₂ names₁ v h₁, X.overflow = .trap ∨ h.countP isOpen < 2 ^ 32 →
      h = h₂ ++ .deliver (.initGlobal names₁) (.ok v) :: h₁ →
      ∃ votes, .deliver (.finalizeGather votes) (.ok (some true)) ∈ h₂ := by
  obtain ⟨rest, hflight⟩ : ∃ rest, c.inFlight = .initGlobal names ::ₘ rest := by
    cases hs with
    | deliverOk hm hk => exact ⟨_, hm⟩
    | deliverError hm hk => exact ⟨_, hm⟩
  have hclosed : ¬ IsVoting c.state := by
    refine (closedWhileOpening_of_run hr).2 ?_
    rw [Config.carried, hflight, Multiset.map_cons, Multiset.sum_cons, openings]
    omega
  have hle := caseNum_le_of_run hr
  refine ⟨by rw [IsVoting] at hclosed; omega, fun h₂ names₁ v h₁ hwrap heq => ?_⟩
  by_contra hnone
  exact hclosed (voting_since_open hr hwrap heq (not_exists.mp hnone))

/-- Two `init` calls that both pass the check before either has opened its case: the second case is
opened while the first is open. -/
theorem two_cases_open : ¬ ∀ h c names r c',
    (machine (oneShard .trap)).Run Anything ⟨empty 0 fun _ => 1, 0⟩ h c →
      (machine (oneShard .trap)).Step c (.deliver (.initGlobal names) r) c' →
      ¬ c.state.lastResult.caseNum < c.state.currentCase := by
  intro hall
  obtain ⟨⟨h, c⟩, hx, hmem, hopen⟩ :
      ∃ r ∈ (machine (oneShard .trap)).exec Anything ⟨empty 0 fun _ => 1, 0⟩
        [.call (.init 0 ["Spring"]), .call (.init 1 ["Yarn"]), .deliver (.initGlobal ["Spring"])],
        .initGlobal ["Yarn"] ∈ r.2.inFlight ∧
          r.2.state.lastResult.caseNum < r.2.state.currentCase := by decide
  obtain ⟨r, c', hs⟩ := Machine.exists_step_of_mem hmem
  exact hall h c _ r c' (Machine.exec_run hx) hs hopen

/-- A second case after the first is decided. -/
theorem one_case_at_a_time_oneShard : ∃ h c r c',
    (machine (oneShard .trap)).Run InitAlone ⟨empty 0 fun _ => 1, 0⟩ h c ∧
      (machine (oneShard .trap)).Step c (.deliver (.initGlobal ["Yarn"]) r) c' ∧
      h.countP isOpen = 1 ∧ c.state.lastResult.caseNum = c.state.currentCase := by
  obtain ⟨⟨h, c⟩, hx, hmem, hopens⟩ :
      ∃ r ∈ (machine (oneShard .trap)).exec InitAlone ⟨empty 0 fun _ => 1, 0⟩
        [.call (.init 0 ["Spring"]), .deliver (.initGlobal ["Spring"]), .call (.finalize 0),
          .deliver .finalizeGlobal, .deliver (.finalizeShard 0), .deliver (.finalizeGather []),
          .call (.init 1 ["Yarn"])],
        .initGlobal ["Yarn"] ∈ r.2.inFlight ∧ r.1.countP isOpen = 1 := by decide
  obtain ⟨r, c', hs⟩ := Machine.exists_step_of_mem hmem
  have hr := Machine.exec_run hx
  exact ⟨h, c, r, c', hr, hs, hopens, (one_case_at_a_time hr hs).1⟩

end Runs

end Ballot

end Preda

end RelayContracts
