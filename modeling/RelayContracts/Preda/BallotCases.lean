import RelayContracts.Preda.BallotTally

/-!
# Cases that follow each other

`init` appends its proposals to those of earlier cases and clears neither the totals nor the arrays
of the shards. A finalization therefore starts from what is *carried over*: the earlier totals, and
every vote ever accepted, a second time. The new proposals start from nothing.

So a case is decided by its own votes only where they are strong enough. `case_isolated` says when:
each earlier proposal, with all that is carried over for it, has to be outweighed by one of the
case's own. If all names are different and none is empty, this is also necessary.
-/

namespace RelayContracts

namespace Preda

namespace Ballot

open RelayMachine

variable {A : Type} [DecidableEq A] {X : Chain A} {s₀ : State A X.shardOrder} {weight : A → ℕ}
  {h : History A X.shardOrder} {c : Config (State A X.shardOrder) (Relay X.shardOrder)} {n : ℕ}

/-- `n` complete cases, executed one after the other from deployment. -/
inductive Completed (X : Chain A) (weight : A → ℕ) : ℕ → State A X.shardOrder → Prop
  /-- Nothing has happened yet. -/
  | deploy : Completed X weight 0 (empty X.shardOrder weight)
  /-- One more case. -/
  | case {n : ℕ} {s : State A X.shardOrder} {h : History A X.shardOrder}
      {c : Config (State A X.shardOrder) (Relay X.shardOrder)} (hn : Completed X weight n s)
      (hs : CompleteCase X s h c) : Completed X weight (n + 1) c.state

theorem Completed.inRange (hn : Completed X weight n s₀) :
    InRange (⟨s₀, 0⟩ : Config _ (Relay X.shardOrder)) := by
  induction hn with
  | deploy => exact inRange_empty weight
  | case _ hs ih =>
    refine ⟨(inRange_of_run hs.run ih).shard, fun votes hv => ?_⟩
    exact absurd hv (Multiset.notMem_zero _)

theorem Completed.weight_eq (hn : Completed X weight n s₀) : s₀.weight = weight := by
  induction hn with
  | deploy => rfl
  | case _ hs ih => exact (weight_of_run hs.run).trans ih

theorem Completed.currentCase_eq (hn : Completed X weight n s₀) (hlt : n < 2 ^ 32) :
    s₀.currentCase = n := by
  induction hn with
  | deploy => rfl
  | case _ hs ih =>
    have ih := ih (by omega)
    rw [(hs.opened (by omega)).1, ih]

/-- The votes accepted in a case are for that case. -/
theorem CompleteCase.caseNum_eq (hs : CompleteCase X s₀ h c) :
    ∀ v ∈ acceptedVotes h, v.caseNum = c.state.currentCase := by
  refine hs.run.invariant (I := fun h c => OpensFirst h →
    ∀ v ∈ acceptedVotes h, v.caseNum = c.state.currentCase) ?_ ?_ ?_ ?_ ?_ hs.opensFirst
  · rintro - v ⟨⟩
  · intro h c m eff _ ih _ hm hopens
    have ih := ih (List.pairwise_cons.mp hopens).2
    cases called_of_ok hm with
    | accept hcase => simpa [hcase] using ih
    | _ => exact ih
  · intro h c m f _ ih _ _ hopens
    rw [acceptedVotes_other (by cases m <;> rfl)]
    exact ih (List.pairwise_cons.mp hopens).2
  · intro h s m rest eff _ ih _ hm hopens
    obtain ⟨hfirst, hrest⟩ := List.pairwise_cons.mp hopens
    have ih := ih hrest
    rw [acceptedVotes_other rfl]
    cases delivered_of_ok hm with
    | initGlobal =>
      intro v hv
      obtain ⟨e, he, hacc⟩ := List.mem_filterMap.mp hv
      exact absurd (Option.isSome_of_mem hacc) (hfirst e he rfl).1
    | _ => exact ih
  · intro h s m rest f _ ih _ _ hopens
    rw [acceptedVotes_other rfl]
    exact ih (List.pairwise_cons.mp hopens).2

omit [DecidableEq A] in
/-- Nothing is carried over for the proposals of a new case. -/
theorem carriedOver_of_le (h₀ : InRange (⟨s₀, 0⟩ : Config _ (Relay X.shardOrder))) {i : ℕ}
    (hi : s₀.proposals.length ≤ i) : carriedOver X s₀ i = 0 := by
  have hshard : ∀ t, (s₀.votedWeights t).getD i 0 = 0 :=
    fun t => List.getD_eq_default _ _ ((h₀.shard t).trans hi)
  rw [carriedOver, totalAt, List.getD_eq_default _ _ (by simpa using hi), Nat.zero_add]
  exact Finset.sum_eq_zero fun t _ => hshard t

/-- The result of a case is the empty string if nothing was voted for in it, and otherwise one of
its own names whose votes in this case weigh the most. -/
def Isolated (s₀ : State A X.shardOrder) (h : History A X.shardOrder) (top : String) : Prop :=
  ((∀ i, tally s₀.weight i (acceptedVotes h) = 0) ∧ top = "") ∨
    (∃ i, 0 < tally s₀.weight i (acceptedVotes h)) ∧
      ∃ (i : ℕ) (hi : i < (openedNames h).length), top = (openedNames h)[i] ∧
        ∀ j, tally s₀.weight j (acceptedVotes h) ≤
          tally s₀.weight (s₀.proposals.length + i) (acceptedVotes h)

/-- Each earlier proposal with any weight at all, carried over or new, is outweighed by one of the
case's own. -/
def Outweighed (X : Chain A) (s₀ : State A X.shardOrder) (h : History A X.shardOrder) : Prop :=
  ∀ j < s₀.proposals.length, 0 < carriedOver X s₀ j + tally s₀.weight j (acceptedVotes h) →
    ∃ i, s₀.proposals.length ≤ i ∧
      carriedOver X s₀ j + tally s₀.weight j (acceptedVotes h) <
        tally s₀.weight i (acceptedVotes h)

section Case

variable (hs : CompleteCase X s₀ h c) (h₀ : InRange (⟨s₀, 0⟩ : Config _ (Relay X.shardOrder)))
  (hone : OneWave X s₀ h) (hcase : s₀.currentCase + 1 < 2 ^ 32)

include hs hcase in
/-- The proposals of a case stand behind the earlier ones. -/
theorem CompleteCase.name_new {i : ℕ} (hi : i < c.state.proposals.length)
    (hle : s₀.proposals.length ≤ i) :
    ∃ hi' : i - s₀.proposals.length < (openedNames h).length,
      c.state.proposals[i].name = (openedNames h)[i - s₀.proposals.length] := by
  have hnames := (hs.opened hcase).2
  have hlen := congrArg List.length hnames
  simp only [List.length_map, List.length_append] at hlen
  refine ⟨by omega, ?_⟩
  have hget := congrArg (·[i]?) hnames
  rw [List.getElem?_append_right (by simpa using hle)] at hget
  simpa [hi, show i - s₀.proposals.length < (openedNames h).length by omega] using hget

include hs h₀ hone

theorem CompleteCase.total_new {i : ℕ} (hi : s₀.proposals.length ≤ i) :
    totalAt c.state.proposals i = tally s₀.weight i (acceptedVotes h) := by
  rw [hs.totals h₀ hone, carriedOver_of_le h₀ hi, Nat.zero_add]

theorem CompleteCase.tally_le_total (i : ℕ) :
    tally s₀.weight i (acceptedVotes h) ≤ totalAt c.state.proposals i := by
  rw [hs.totals h₀ hone]
  exact Nat.le_add_left _ _

include hcase

/-- If the earlier proposals are outweighed, the case is decided by its own votes. -/
theorem CompleteCase.isolated_of_outweighed (hout : Outweighed X s₀ h) :
    Isolated s₀ h (topVoted c.state.proposals "") := by
  rcases topVoted_cases c.state.proposals "" with ⟨hzero, htop⟩ | ⟨w, hw, hmax, hpos, htop⟩
  · refine .inl ⟨fun i => ?_, htop⟩
    have := hs.tally_le_total h₀ hone i
    have := hzero i
    omega
  · have hnew : s₀.proposals.length ≤ w := by
      by_contra hold
      obtain ⟨i, hi, hlt⟩ := hout w (Nat.lt_of_not_le hold) (by rwa [← hs.totals h₀ hone])
      rw [← hs.totals h₀ hone, ← hs.total_new h₀ hone hi] at hlt
      have hi : i < c.state.proposals.length := lt_length_of_totalAt_pos (by omega)
      have := hmax.le i hi
      omega
    rw [hs.total_new h₀ hone hnew] at hpos
    obtain ⟨hi, hname⟩ := hs.name_new hcase hw hnew
    refine .inr ⟨⟨w, hpos⟩, w - s₀.proposals.length, hi, htop.trans hname, fun j => ?_⟩
    rw [Nat.add_sub_cancel' hnew, ← hs.total_new h₀ hone hnew]
    refine (hs.tally_le_total h₀ hone j).trans ?_
    by_cases hj : totalAt c.state.proposals j = 0
    · omega
    · exact hmax.le j (lt_length_of_totalAt_pos (Nat.pos_of_ne_zero hj))

/-- If the names are different and none is empty, a case is only decided by its own votes if the
earlier proposals are outweighed. -/
theorem CompleteCase.outweighed_of_isolated
    (hnodup : (s₀.proposals.map Proposal.name ++ openedNames h).Nodup)
    (hblank : "" ∉ s₀.proposals.map Proposal.name ++ openedNames h)
    (hiso : Isolated s₀ h (topVoted c.state.proposals "")) : Outweighed X s₀ h := by
  have hnames := (hs.opened hcase).2
  intro j hj hpos
  rw [← hs.totals h₀ hone] at hpos ⊢
  rcases topVoted_cases c.state.proposals "" with ⟨hzero, -⟩ | ⟨w, hw, hmax, -, htop⟩
  · have := hzero j
    omega
  · -- what the winner is called, and where that name stands
    have hw' : w < (s₀.proposals.map Proposal.name ++ openedNames h).length := by
      rw [← hnames]
      simpa using hw
    have hwin : (s₀.proposals.map Proposal.name ++ openedNames h)[w] =
        topVoted c.state.proposals "" := by
      rw [htop, ← List.getElem_of_eq hnames (by simpa using hw), List.getElem_map]
    rcases hiso with ⟨-, hempty⟩ | ⟨-, i, hi, hname, -⟩
    · exact absurd (hempty ▸ hwin ▸ List.getElem_mem hw') hblank
    · have hi' : s₀.proposals.length + i <
          (s₀.proposals.map Proposal.name ++ openedNames h).length := by simpa using hi
      have hown : (s₀.proposals.map Proposal.name ++ openedNames h)[s₀.proposals.length + i] =
          topVoted c.state.proposals "" := by
        rw [hname]
        simp
      have hw : w = s₀.proposals.length + i := hnodup.getElem_inj_iff.mp (hwin.trans hown.symm)
      refine ⟨w, by omega, ?_⟩
      rw [← hs.total_new h₀ hone (by omega)]
      exact hmax.first j (by omega)

end Case

/-- **When a case is isolated.** Take any run of complete cases, one after the other, on up to
`2 ^ 31` shards, and any case in it whose totals fit in a `uint64`. The votes accepted in the case
are for it. If its own proposals outweigh the earlier ones, its result is one of its own names, of
maximal weight by its own votes, or empty if they weigh nothing. If all names are different and
none is empty, the converse holds too. -/
theorem case_isolated (hn : Completed X weight n s₀) (hs : CompleteCase X s₀ h c)
    (hk : X.shardOrder ≤ 31) (hcase : n + 1 < 2 ^ 32)
    (hfit : ∀ i, carriedOver X s₀ i + tally weight i (acceptedVotes h) < 2 ^ 64) :
    (c.state.currentCase = n + 1 ∧ ∀ v ∈ acceptedVotes h, v.caseNum = n + 1) ∧
    (Outweighed X s₀ h → Isolated s₀ h c.state.lastResult.topVoted) ∧
    ((s₀.proposals.map Proposal.name ++ openedNames h).Nodup →
      "" ∉ s₀.proposals.map Proposal.name ++ openedNames h →
      Isolated s₀ h c.state.lastResult.topVoted → Outweighed X s₀ h) := by
  have h₀ := hn.inRange
  have hone : OneWave X s₀ h := ⟨hs.finalize.le, by rwa [hn.weight_eq]⟩
  have hcur := hn.currentCase_eq (by omega)
  have hcase₀ : s₀.currentCase + 1 < 2 ^ 32 := by omega
  have hcur' : c.state.currentCase = n + 1 := by rw [(hs.opened hcase₀).1, hcur]
  rw [hs.result hk h₀ hone hcase₀]
  exact ⟨⟨hcur', fun v hv => (hs.caseNum_eq v hv).trans hcur'⟩,
    hs.isolated_of_outweighed h₀ hone hcase₀, hs.outweighed_of_isolated h₀ hone hcase₀⟩

/-- One vote in each of two cases, of equal weight, for the only name of the case: the second case
is won by the name of the first. -/
theorem case_not_isolated : ¬ ∀ n s₀ h c, Completed (oneShard .trap) (fun _ => 1) n s₀ →
    CompleteCase (oneShard .trap) s₀ h c → Isolated s₀ h c.state.lastResult.topVoted := by
  intro hall
  obtain ⟨⟨h, c⟩, hx, ⟨hinit, hfin, hopens, hvotes, hq⟩, ⟨h', c'⟩, hx', ⟨hinit', hfin', hopens',
      hvotes', hq'⟩, hnames, hacc, htop⟩ :
      ∃ r ∈ (machine (oneShard .trap)).exec Anything ⟨empty 0 fun _ => 1, 0⟩
        [.call (.init 0 ["Spring"]), .deliver (.initGlobal ["Spring"]), .call (.vote 0 0 1),
          .call (.finalize 0), .deliver .finalizeGlobal, .deliver (.finalizeShard 0),
          .deliver (.finalizeGather [1])],
        (r.1.countP isInit = 1 ∧ r.1.countP isFinalize = 1 ∧ OpensFirst r.1 ∧ VotesFirst r.1 ∧
          r.2.inFlight = 0) ∧
        ∃ r' ∈ (machine (oneShard .trap)).exec Anything ⟨r.2.state, 0⟩
          [.call (.init 0 ["Yarn"]), .deliver (.initGlobal ["Yarn"]), .call (.vote 1 1 2),
            .call (.finalize 0), .deliver .finalizeGlobal, .deliver (.finalizeShard 0),
            .deliver (.finalizeGather [1, 1])],
          (r'.1.countP isInit = 1 ∧ r'.1.countP isFinalize = 1 ∧ OpensFirst r'.1 ∧
            VotesFirst r'.1 ∧ r'.2.inFlight = 0) ∧
          openedNames r'.1 = ["Yarn"] ∧ acceptedVotes r'.1 = [⟨1, 1, 2⟩] ∧
          r'.2.state.lastResult.topVoted = "Spring" := by decide
  have hs : CompleteCase (oneShard .trap) (empty 0 fun _ => 1) h c :=
    ⟨Machine.exec_run hx, hinit, hfin, hopens, hvotes, hq⟩
  have hs' : CompleteCase (oneShard .trap) c.state h' c' :=
    ⟨Machine.exec_run hx', hinit', hfin', hopens', hvotes', hq'⟩
  rcases hall 1 c.state h' c' (.case .deploy hs) hs' with ⟨-, hempty⟩ | ⟨-, i, hi, hname, -⟩
  · exact absurd (htop.symm.trans hempty) (by decide)
  · have hmem : (openedNames h')[i] ∈ openedNames h' := List.getElem_mem hi
    rw [← hname, htop, hnames] at hmem
    exact absurd hmem (by decide)

/-- A second case in which a vote of weight 5 outweighs the 2 that one vote of weight 1 in the first
case has become. -/
theorem case_isolated_oneShard : ∃ s₀ h c,
    Completed (oneShard .trap) (fun a => 4 * a.val + 1) 1 s₀ ∧
      CompleteCase (oneShard .trap) s₀ h c ∧ carriedOver (oneShard .trap) s₀ 0 = 2 ∧
      acceptedVotes h = [⟨1, 1, 2⟩] ∧ Isolated s₀ h c.state.lastResult.topVoted := by
  obtain ⟨⟨h, c⟩, hx, ⟨hinit, hfin, hopens, hvotes, hq⟩, ⟨hlen, hover⟩, ⟨h', c'⟩, hx', ⟨hinit',
      hfin', hopens', hvotes', hq'⟩, hacc⟩ :
      ∃ r ∈ (machine (oneShard .trap)).exec Anything ⟨empty 0 fun a => 4 * a.val + 1, 0⟩
        [.call (.init 0 ["Spring"]), .deliver (.initGlobal ["Spring"]), .call (.vote 0 0 1),
          .call (.finalize 0), .deliver .finalizeGlobal, .deliver (.finalizeShard 0),
          .deliver (.finalizeGather [1])],
        (r.1.countP isInit = 1 ∧ r.1.countP isFinalize = 1 ∧ OpensFirst r.1 ∧ VotesFirst r.1 ∧
          r.2.inFlight = 0) ∧
        (r.2.state.proposals.length = 1 ∧ carriedOver (oneShard .trap) r.2.state 0 = 2) ∧
        ∃ r' ∈ (machine (oneShard .trap)).exec Anything ⟨r.2.state, 0⟩
          [.call (.init 0 ["Yarn"]), .deliver (.initGlobal ["Yarn"]), .call (.vote 1 1 2),
            .call (.finalize 0), .deliver .finalizeGlobal, .deliver (.finalizeShard 0),
            .deliver (.finalizeGather [1, 5])],
          (r'.1.countP isInit = 1 ∧ r'.1.countP isFinalize = 1 ∧ OpensFirst r'.1 ∧
            VotesFirst r'.1 ∧ r'.2.inFlight = 0) ∧ acceptedVotes r'.1 = [⟨1, 1, 2⟩] := by decide
  have hs : CompleteCase (oneShard .trap) (empty 0 fun a => 4 * a.val + 1) h c :=
    ⟨Machine.exec_run hx, hinit, hfin, hopens, hvotes, hq⟩
  have hn : Completed (oneShard .trap) (fun a => 4 * a.val + 1) 1 c.state := .case .deploy hs
  have hs' : CompleteCase (oneShard .trap) c.state h' c' :=
    ⟨Machine.exec_run hx', hinit', hfin', hopens', hvotes', hq'⟩
  have htally : ∀ i, tally (fun a : Fin 2 => 4 * a.val + 1) i (acceptedVotes h') =
      if 1 = i then 5 else 0 := by
    intro i
    rw [hacc]
    rfl
  have hcarried : ∀ i, carriedOver (oneShard .trap) c.state i = if i = 0 then 2 else 0 := by
    intro i
    split
    · rename_i hi
      rw [hi, hover]
    · exact carriedOver_of_le hn.inRange (by rw [hlen]; omega)
  refine ⟨c.state, h', c', hn, hs', hover, hacc, ?_⟩
  refine (case_isolated hn hs' (by decide) (by decide) fun i => ?_).2.1 fun j hj _ => ?_
  · rw [hcarried, htally]
    split <;> split <;> decide
  · obtain rfl : j = 0 := by rw [hlen] at hj; omega
    refine ⟨1, by rw [hlen], ?_⟩
    rw [hn.weight_eq, htally, htally, hover]
    decide

end Ballot

end Preda

end RelayContracts
