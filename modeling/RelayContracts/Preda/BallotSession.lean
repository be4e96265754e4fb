import RelayContracts.Preda.BallotTally
import RelayContracts.Synchronous

/-!
# A session of the Ballot

The ballot is meant to be used in three phases: one `init`, a list of votes, one `finalize`. This
file says what such a session returns and what it ends in, as a function of the list of votes. The
votes wait for `init` to be executed and `finalize` for the votes; beyond that, the relays are
delivered in any order.

A vote is accepted if it is for case 1 and a proposal there is, and no vote of its address was
accepted before: `Counts`. `counted` are the votes accepted that way, `verdicts` what each returns.

## Main results

* `Session.outcomes_eq` — what every call of a session returned
* `Session.completeCase`, `Session.acceptedVotes_eq` — a session is a complete case with the
  counted votes
-/

namespace RelayContracts

namespace Preda

namespace Ballot

open RelayMachine

variable {A : Type} {k : ℕ}

/-- The call that casts a vote. -/
def Vote.call (v : Vote A) : Call A := .vote v.voter v.proposalIndex v.caseNum

/-- Votes and finalizations are called when every `init` before them has been executed. -/
def AfterInit (_ : History A k) (c : Config (State A k) (Relay k)) :
    Event (Call A) (Relay k) (Option Bool) Fault → Prop
  | .call (.vote _ _ _) _ | .call (.finalize _) _ => c.carried openings = 0
  | _ => True

instance (h : History A k) (c : Config (State A k) (Relay k))
    (e : Event (Call A) (Relay k) (Option Bool) Fault) : Decidable (AfterInit h c e) :=
  match e with
  | .call (.vote _ _ _) _ | .call (.finalize _) _ =>
    inferInstanceAs (Decidable (c.carried openings = 0))
  | .call (.init _ _) _ | .deliver _ _ => isTrue trivial

/-- The calls of a session, latest first: `a` calls `init`, the votes `vs` are cast, and `b` calls
`finalize`. -/
def sessionCalls (names : List String) (a b : A) (vs : List (Vote A)) : List (Call A) :=
  .finalize b :: (vs.map Vote.call ++ [.init a names])

/-- A session, with every relay delivered in the end. -/
structure Session [DecidableEq A] (X : Chain A) (weight : A → ℕ) (names : List String) (a b : A)
    (vs : List (Vote A)) (h : History A X.shardOrder)
    (c : Config (State A X.shardOrder) (Relay X.shardOrder)) : Prop where
  /-- It is a run from a deployment. -/
  run : (machine X).Run AfterInit ⟨empty X.shardOrder weight, 0⟩ h c
  /-- These are its calls. -/
  calls_eq : calls h = sessionCalls names a b vs
  /-- Nothing is left in flight. -/
  quiet : c.inFlight = 0

/-! ### The votes that count -/

section Counted

variable [DecidableEq A]

/-- A vote counts in case 1 with `n` proposals, after votes that counted. -/
def Counts (n : ℕ) (before : List (Vote A)) (v : Vote A) : Prop :=
  v.caseNum = 1 ∧ v.proposalIndex < n ∧ v.voter ∉ before.map Vote.voter

instance (n : ℕ) (before : List (Vote A)) (v : Vote A) : Decidable (Counts n before v) :=
  inferInstanceAs (Decidable (_ ∧ _))

/-- The votes of a list that count, latest first. -/
def counted (n : ℕ) : List (Vote A) → List (Vote A)
  | [] => []
  | v :: vs => if Counts n (counted n vs) v then v :: counted n vs else counted n vs

/-- Whether each vote of a list counts. -/
def verdicts (n : ℕ) : List (Vote A) → List (Vote A × Bool)
  | [] => []
  | v :: vs => (v, decide (Counts n (counted n vs) v)) :: verdicts n vs

variable {n : ℕ} {v : Vote A} {vs ws : List (Vote A)}

theorem counted_cons_of_counts (hv : Counts n (counted n vs) v) :
    counted n (v :: vs) = v :: counted n vs := if_pos hv

theorem counted_cons_of_not_counts (hv : ¬ Counts n (counted n vs) v) :
    counted n (v :: vs) = counted n vs := if_neg hv

theorem counted_suffix (hs : ws <:+ vs) : counted n ws <:+ counted n vs := by
  induction vs with
  | nil => rw [List.suffix_nil.mp hs]
  | cons v vs ih =>
    rcases List.suffix_cons_iff.mp hs with rfl | hs
    · exact List.suffix_rfl
    · by_cases hv : Counts n (counted n vs) v
      · rw [counted_cons_of_counts hv]
        exact (ih hs).trans (List.suffix_cons _ _)
      · rw [counted_cons_of_not_counts hv]
        exact ih hs

theorem counted_sublist (n : ℕ) (vs : List (Vote A)) : (counted n vs).Sublist vs := by
  induction vs with
  | nil => exact .slnil
  | cons v vs ih =>
    by_cases hv : Counts n (counted n vs) v
    · rw [counted_cons_of_counts hv]
      exact ih.cons_cons v
    · rw [counted_cons_of_not_counts hv]
      exact ih.cons v

theorem counted_eq_filterMap (n : ℕ) (vs : List (Vote A)) :
    counted n vs = (verdicts n vs).filterMap fun p => if p.2 then some p.1 else none := by
  induction vs with
  | nil => rfl
  | cons v vs ih =>
    rw [verdicts, List.filterMap_cons, ← ih]
    by_cases hv : Counts n (counted n vs) v
    · simp [counted_cons_of_counts hv, hv]
    · simp [counted_cons_of_not_counts hv, hv]

/-! Where no address votes twice, the votes before do not matter. -/

theorem counts_iff_of_nodup (hvs : ((v :: vs).map Vote.voter).Nodup) :
    Counts n (counted n vs) v ↔ v.caseNum = 1 ∧ v.proposalIndex < n := by
  refine ⟨fun hv => ⟨hv.1, hv.2.1⟩, fun hv => ⟨hv.1, hv.2, fun hmem => ?_⟩⟩
  exact (List.nodup_cons.mp hvs).1 (((counted_sublist n vs).map _).subset hmem)

theorem verdicts_of_nodup (hvs : (vs.map Vote.voter).Nodup) :
    verdicts n vs = vs.map fun v => (v, decide (v.caseNum = 1 ∧ v.proposalIndex < n)) := by
  induction vs with
  | nil => rfl
  | cons v vs ih =>
    rw [verdicts, List.map_cons, ih (List.nodup_cons.mp hvs).2,
      decide_eq_decide.mpr (counts_iff_of_nodup hvs)]

theorem counted_of_nodup (hvs : (vs.map Vote.voter).Nodup) :
    counted n vs = vs.filter fun v => v.caseNum = 1 ∧ v.proposalIndex < n := by
  induction vs with
  | nil => rfl
  | cons v vs ih =>
    rw [List.filter_cons, ← ih (List.nodup_cons.mp hvs).2, counted]
    simp only [counts_iff_of_nodup hvs, decide_eq_true_eq]

end Counted

/-! ### The calls of a session, one after the other -/

section Runs

variable [DecidableEq A] {X : Chain A} {weight : A → ℕ} {names : List String} {a b : A}
  {vs ws : List (Vote A)} {c : Config (State A X.shardOrder) (Relay X.shardOrder)}
  {G : History A X.shardOrder → Config (State A X.shardOrder) (Relay X.shardOrder) →
    Event (Call A) (Relay X.shardOrder) (Option Bool) Fault → Prop}
  {h : History A X.shardOrder}

/-- What a vote returned, as an outcome. -/
def Vote.outcome (p : Vote A × Bool) : Call A × Except Fault (Option Bool) :=
  (p.1.call, .ok (some p.2))

/-- The runs that make the calls of a session one after the other. -/
def InSession (names : List String) (a b : A) (vs : List (Vote A)) (h : History A k)
    (c : Config (State A k) (Relay k)) (e : Event (Call A) (Relay k) (Option Bool) Fault) : Prop :=
  AfterInit h c e ∧ calls (e :: h) <:+ sessionCalls names a b vs

omit [DecidableEq A] in
/-- The calls of a session before a given one. -/
theorem calls_before {k : Call A} {ks : List (Call A)}
    (hs : k :: ks <:+ sessionCalls names a b vs) :
    (k = .finalize b ∧ ks = vs.map Vote.call ++ [.init a names]) ∨
      (k = .init a names ∧ ks = []) ∨
      ∃ v ws, v :: ws <:+ vs ∧ k = v.call ∧ ks = ws.map Vote.call ++ [.init a names] := by
  rcases List.suffix_cons_iff.mp hs with heq | hs
  · exact .inl (List.cons.inj heq)
  · exact .inr (suffix_map_append hs)

/-- An address that has no accepted vote has the `voted_case` it started with. -/
theorem votedCase_of_not_voted {c₀ : Config (State A X.shardOrder) (Relay X.shardOrder)}
    (hr : (machine X).Run G c₀ h c) {x : A} (hx : x ∉ (acceptedVotes h).map Vote.voter) :
    c.state.votedCase x = c₀.state.votedCase x := by
  revert hx
  refine hr.invariant (I := fun h c => x ∉ (acceptedVotes h).map Vote.voter →
    c.state.votedCase x = c₀.state.votedCase x) (fun _ => rfl) ?_ ?_ ?_ ?_
  · intro h c m eff _ ih _ hk hx
    cases called_of_ok hk with
    | accept =>
      rw [acceptedVotes_accept, List.map_cons, List.mem_cons, not_or] at hx
      exact (Function.update_of_ne hx.1 _ _).trans (ih hx.2)
    | _ => exact ih hx
  · intro h c m f _ ih _ _ hx
    rw [acceptedVotes_other (by cases m <;> rfl)] at hx
    exact ih hx
  · intro h s m rest eff _ ih _ hk hx
    cases delivered_of_ok hk <;> exact ih hx
  · exact fun _ ih _ _ => ih

/-- The proposals in a session are those of its `init`. -/
structure Opening (names : List String) (h : History A k) (c : Config (State A k) (Relay k)) :
    Prop where
  /-- Its `init` has passed once. -/
  init : h.countP isInit = 1
  /-- What is in flight has its names. -/
  inFlight : ∀ names', .initGlobal names' ∈ c.inFlight → names' = names
  /-- What has been executed had its names. -/
  opened : h.countP isOpen = 1 → openedNames h = names

omit [DecidableEq A] in
theorem openedNames_of_no_open {h : History A k} (hopens : h.countP isOpen = 0) :
    openedNames h = [] := by
  induction h with
  | nil => rfl
  | cons e h ih =>
    rw [List.countP_cons] at hopens
    have he : ¬ isOpen e := fun he => by rw [if_pos he] at hopens; omega
    rw [openedNames_of_not_isOpen he, ih (by omega)]

omit [DecidableEq A] in
/-- A step that neither calls `init` nor executes one. -/
theorem Opening.frame {e : Event (Call A) (Relay k) (Option Bool) Fault} {h : History A k}
    {c c' : Config (State A k) (Relay k)} (ho : Opening names h c)
    (he : isInit e = false ∧ isOpen e = false)
    (hflight : ∀ names', .initGlobal names' ∈ c'.inFlight → .initGlobal names' ∈ c.inFlight) :
    Opening names (e :: h) c' := by
  obtain ⟨hinit, hopen⟩ := he
  refine ⟨?_, fun names' hmem => ho.inFlight names' (hflight names' hmem), fun hopens => ?_⟩
  · rw [List.countP_cons_of_neg (by simp [hinit]), ho.init]
  · rw [List.countP_cons_of_neg (by simp [hopen])] at hopens
    rw [openedNames_of_not_isOpen (by simp [hopen]), ho.opened hopens]

/-- On a deployment `init` passes. -/
theorem init_empty : (machine X).call (.init a names) (empty X.shardOrder weight) =
    .ok ⟨empty X.shardOrder weight, none, [.initGlobal names]⟩ := rfl

/-- Once `init` is called, the session has its proposals. -/
theorem opening_of_run (hr : (machine X).Run (InSession names a b vs)
    ⟨empty X.shardOrder weight, 0⟩ h c) (hcalls : calls h ≠ []) : Opening names h c := by
  revert hcalls
  refine hr.invariant (I := fun h c => calls h ≠ [] → Opening names h c)
    (fun hnil => absurd rfl hnil) ?_ ?_ ?_ ?_
  · rintro h c m eff hr ih ⟨-, hks⟩ hk -
    rcases calls_before hks with ⟨rfl, hbefore⟩ | ⟨rfl, hbefore⟩ | ⟨v, ws, -, rfl, hbefore⟩
    · have ho := ih (by simp [hbefore])
      cases called_of_ok hk with
      | finalize => exact ho.frame ⟨rfl, rfl⟩ (by simp)
    · obtain ⟨rfl, rfl⟩ := hr.eq_nil_of_calls hbefore
      cases init_empty.symm.trans hk
      exact ⟨rfl, by simp, by simp [isOpen]⟩
    · have ho := ih (by simp [hbefore])
      cases called_of_ok (c := .vote v.voter v.proposalIndex v.caseNum) hk with
      | accept => exact ho.frame ⟨rfl, rfl⟩ (by simp)
      | reject => exact ho.frame ⟨rfl, rfl⟩ (by simp)
  · rintro h c m f hr ih ⟨-, hks⟩ hk -
    rcases calls_before hks with ⟨rfl, hbefore⟩ | ⟨rfl, hbefore⟩ | ⟨v, ws, -, rfl, hbefore⟩
    · exact (ih (by simp [hbefore])).frame ⟨rfl, rfl⟩ fun _ => id
    · obtain ⟨rfl, rfl⟩ := hr.eq_nil_of_calls hbefore
      cases init_empty.symm.trans hk
    · exact (ih (by simp [hbefore])).frame ⟨rfl, rfl⟩ fun _ => id
  · rintro h s m rest eff hr ih - hk hcalls
    have ho := ih hcalls
    cases delivered_of_ok hk with
    | @initGlobal names' n hn =>
      have hstage := opens_add_inFlight hr
      rw [ho.init, Config.carried_cons, openings] at hstage
      have hnames := ho.inFlight names' (Multiset.mem_cons_self _ _)
      refine ⟨?_, fun names' hmem => ho.inFlight names' ?_, fun _ => ?_⟩
      · rw [List.countP_cons_of_neg (by simp [isInit]), ho.init]
      · exact Multiset.mem_cons_of_mem (by simpa using hmem)
      · rw [openedNames, openedNames_of_no_open (by omega), hnames, List.nil_append]
    | _ => exact ho.frame ⟨rfl, rfl⟩ (by simp +contextual)
  · rintro h s m rest f hr ih - hk hcalls
    have ho := ih hcalls
    cases m with
    | initGlobal names' =>
      -- `current_case` is still 0
      have hstage := opens_add_inFlight hr
      rw [ho.init, Config.carried_cons, openings] at hstage
      have hopens : h.countP isOpen = 0 := by omega
      obtain ⟨hcur, -⟩ : s.currentCase = 0 + h.countP isOpen ∧ _ :=
        opened_of_run hr (by rw [hopens]; exact Nat.two_pow_pos 32)
      have hfit : s.currentCase + 1 < 2 ^ 32 := by
        rw [hcur, hopens]
        exact Nat.one_lt_two_pow (by decide)
      exact absurd hk (initGlobal_ne_error hfit)
    | _ => exact ho.frame ⟨rfl, rfl⟩ fun _ hmem => Multiset.mem_cons_of_mem hmem

/-- Once `init` is executed, case 1 is open. -/
theorem Opening.state (ho : Opening names h c)
    (hr : (machine X).Run G ⟨empty X.shardOrder weight, 0⟩ h c) (hopen : c.carried openings = 0) :
    c.state.currentCase = 1 ∧ c.state.proposals.map Proposal.name = names := by
  have hopens : h.countP isOpen = 1 := by
    have hstage := opens_add_inFlight hr
    rwa [hopen, Nat.zero_add, ho.init] at hstage
  obtain ⟨hcur, hnames⟩ := opened_of_run hr
    (by rw [hopens]; exact Nat.one_lt_two_pow (by decide))
  rw [hopens] at hcur
  rw [ho.opened hopens] at hnames
  exact ⟨hcur, hnames⟩

/-- An array holds no more than all accepted votes weigh. -/
theorem votedWeights_le (hr : (machine X).Run G ⟨empty X.shardOrder weight, 0⟩ h c)
    (hfit : weigh weight (fun _ => True) (acceptedVotes h) < 2 ^ 64)
    (t : Fin (2 ^ X.shardOrder)) (i : ℕ) :
    (c.state.votedWeights t).getD i 0 ≤ weigh weight (fun _ => True) (acceptedVotes h) := by
  have hle : ∀ t i, ((empty X.shardOrder weight).votedWeights t).getD i 0 +
      shardTally X weight t i (acceptedVotes h) ≤
        weigh weight (fun _ => True) (acceptedVotes h) := by
    intro t i
    rw [show ((empty X.shardOrder weight).votedWeights t).getD i 0 = 0 from rfl, Nat.zero_add]
    exact (shardTally_le weight X t i _).trans (tally_le weight i _)
  rw [votedWeights_of_run hr (inRange_empty weight) fun t i => (hle t i).trans_lt hfit]
  exact hle t i

/-- **What a vote of a session returns.** -/
theorem vote_returns (hr : (machine X).Run G ⟨empty X.shardOrder weight, 0⟩ h c)
    (ho : Opening names h c) (hopen : c.carried openings = 0) {v : Vote A}
    (hfit : Counts names.length (acceptedVotes h) v →
      weigh weight (fun _ => True) (v :: acceptedVotes h) < 2 ^ 64) :
    ∃ eff, (machine X).call v.call c.state = .ok eff ∧
      eff.value = some (decide (Counts names.length (acceptedVotes h) v)) := by
  obtain ⟨hcur, hnames⟩ := ho.state hr hopen
  have hlen : c.state.proposals.length = names.length := by rw [← hnames, List.length_map]
  rw [show (machine X).call v.call c.state = vote X v.voter v.proposalIndex v.caseNum c.state
    from rfl, vote, hcur, hlen]
  by_cases hv : Counts names.length (acceptedVotes h) v
  · have hsum := hfit hv
    obtain ⟨hone, hi, hnew⟩ := id hv
    rw [weigh_cons, if_pos trivial] at hsum
    have hvoted : c.state.votedCase v.voter < v.caseNum := by
      rw [votedCase_of_not_voted hr hnew, hone]
      exact Nat.one_pos
    have hrange := (inRange_of_run hr (inRange_empty weight)).shard (X.shardOf v.voter)
    rw [hlen] at hrange
    have hlt : v.proposalIndex <
        (setLength 0 names.length (c.state.votedWeights (X.shardOf v.voter))).length := by
      rwa [length_setLength]
    have hfits : (setLength 0 names.length (c.state.votedWeights (X.shardOf v.voter))).getD
        v.proposalIndex 0 + c.state.weight v.voter < 2 ^ 64 := by
      have hheld := votedWeights_le hr (by omega) (X.shardOf v.voter) v.proposalIndex
      rw [getD_setLength 0 hrange, weight_of_run hr]
      show _ + weight v.voter < _
      omega
    obtain ⟨tallied, hadd⟩ := exists_addAt (p := X.overflow) hlt hfits
    rw [if_pos ⟨hone, hvoted, hi⟩]
    simp only [hadd, ok_bind]
    exact ⟨_, rfl, by rw [decide_eq_true hv]⟩
  · rw [if_neg]
    · exact ⟨_, rfl, by rw [decide_eq_false hv]⟩
    · rintro ⟨hone, hvoted, hi⟩
      refine hv ⟨hone, hi, fun hmem => ?_⟩
      obtain ⟨w, hw, heq⟩ := List.mem_map.mp hmem
      have hle := (votes_ordered_of_run hr).2 w hw
      have hlt := votedCase_lt_of_mem hr w hw
      rw [heq] at hle
      omega

/-! ### What the calls of a session return -/

omit [DecidableEq A] in
/-- The accepted votes, read off the outcomes. -/
theorem acceptedVotes_eq_filterMap (h : History A k) :
    acceptedVotes h = (outcomes h).filterMap fun o => accepted? (k := k) (.call o.1 o.2) :=
  filterMap_eq_filterMap_outcomes (fun _ _ => rfl) h

/-- The votes cast in a history, latest first, and whether each returned true. -/
def returned (h : History A k) : List (Vote A × Bool) :=
  (outcomes h).filterMap fun
    | (.vote a i n, .ok (some true)) => some (⟨a, i, n⟩, true)
    | (.vote a i n, _) => some (⟨a, i, n⟩, false)
    | _ => none

/-- What `init` and the votes `ws` of a session return, latest first. -/
def castOutcomes (names : List String) (a : A) (ws : List (Vote A)) :
    List (Call A × Except Fault (Option Bool)) :=
  (verdicts names.length ws).map Vote.outcome ++ [(.init a names, .ok none)]

theorem accepted_castOutcomes (names : List String) (a : A) (ws : List (Vote A)) :
    (castOutcomes names a ws).filterMap (fun o => accepted? (k := k) (.call o.1 o.2)) =
      counted names.length ws := by
  rw [castOutcomes, List.filterMap_append, List.filterMap_map, counted_eq_filterMap]
  refine (List.append_nil _).trans (List.filterMap_congr fun p _ => ?_)
  obtain ⟨v, b⟩ := p
  cases b <;> rfl

theorem finalizes_castOutcomes (names : List String) (a : A) (ws : List (Vote A)) :
    (castOutcomes names a ws).countP (fun o => isFinalize (k := k) (.call o.1 o.2)) = 0 := by
  rw [castOutcomes, List.countP_eq_zero]
  intro o ho
  rcases List.mem_append.mp ho with ho | ho
  · obtain ⟨p, -, rfl⟩ := List.mem_map.mp ho
    simp [Vote.outcome, Vote.call, isFinalize]
  · rw [List.mem_singleton.mp ho]
    simp [isFinalize]

/-- What `init` and the votes of a session return. -/
theorem outcomes_of_votes
    (hr : (machine X).Run (InSession names a b vs) ⟨empty X.shardOrder weight, 0⟩ h c)
    (hfit : weigh weight (fun _ => True) (counted names.length vs) < 2 ^ 64) (hws : ws <:+ vs)
    (hcalls : calls h = ws.map Vote.call ++ [.init a names]) :
    outcomes h = castOutcomes names a ws := by
  induction hr generalizing ws with
  | nil => simp at hcalls
  | @step h c c' e hr hs hg ih =>
    cases e with
    | deliver m r => exact ih hws hcalls
    | call m r =>
      rw [outcomes_cons_call]
      cases ws with
      | nil =>
        obtain ⟨rfl, hnil⟩ := List.cons.inj hcalls
        obtain ⟨rfl, rfl⟩ := hr.eq_nil_of_calls hnil
        rw [(hs.of_call_ok init_empty).1]
        rfl
      | cons v ws =>
        obtain ⟨rfl, hbefore⟩ := List.cons.inj hcalls
        have hout := ih ((List.suffix_cons v ws).trans hws) hbefore
        have hacc : acceptedVotes h = counted names.length ws := by
          rw [acceptedVotes_eq_filterMap, hout, accepted_castOutcomes]
        obtain ⟨eff, hk, hvalue⟩ := vote_returns hr (opening_of_run hr (by simp [hbefore])) hg.1
          fun hv => by
            rw [hacc] at hv ⊢
            rw [← counted_cons_of_counts hv]
            exact (weigh_sublist weight _ (counted_suffix hws).sublist).trans_lt hfit
        rw [(hs.of_call_ok hk).1, hvalue, hacc, hout]
        rfl

/-- What the calls of a session return. -/
theorem outcomes_of_session
    (hr : (machine X).Run (InSession names a b vs) ⟨empty X.shardOrder weight, 0⟩ h c)
    (hfit : weigh weight (fun _ => True) (counted names.length vs) < 2 ^ 64)
    (hcalls : calls h = sessionCalls names a b vs) :
    outcomes h = (.finalize b, .ok none) :: castOutcomes names a vs := by
  induction hr with
  | nil => cases hcalls
  | @step h c c' e hr hs hg ih =>
    cases e with
    | deliver m r => exact ih hcalls
    | call m r =>
      obtain ⟨rfl, hbefore⟩ := List.cons.inj hcalls
      have hout := outcomes_of_votes hr hfit List.suffix_rfl hbefore
      have hfin : h.countP isFinalize = 0 := by
        rw [countP_eq_countP_outcomes (fun _ _ => rfl), hout, finalizes_castOutcomes]
      have hgather : h.countP isGather = 0 := by
        by_contra hg
        exact finalizes_of_gather hr hg hfin
      have hvoting : IsVoting c.state := by
        rw [IsVoting, caseNum_of_no_gather hr hgather,
          ((opening_of_run hr (by simp [hbefore])).state hr hg.1).1]
        exact Nat.one_pos
      have hk : (machine X).call (.finalize b) c.state = .ok ⟨c.state, none, [.finalizeGlobal]⟩ :=
        if_pos hvoting
      rw [outcomes_cons_call, (hs.of_call_ok hk).1, hout]

/-- No vote of a session comes after its `finalize`. -/
theorem votesFirst_of_session
    (hr : (machine X).Run (InSession names a b vs) ⟨empty X.shardOrder weight, 0⟩ h c) :
    VotesFirst h := by
  induction hr with
  | nil => exact .nil
  | @step h c c' e hr hs hg ih =>
    refine List.pairwise_cons.mpr ⟨fun e' he' hacc hfin => ?_, ih⟩
    obtain ⟨m, r, rfl⟩ : ∃ m r, e = .call m r := by
      cases e with
      | call m r => exact ⟨m, r, rfl⟩
      | deliver m r => cases hacc
    obtain ⟨x, r', rfl⟩ : ∃ x r', e' = .call (.finalize x) r' := by
      cases e' with
      | call m' r' => cases m' <;> first | cases hfin | exact ⟨_, _, rfl⟩
      | deliver m' r' => cases hfin
    have hmem : .finalize x ∈ calls h := mem_calls.mpr ⟨r', he'⟩
    rcases calls_before hg.2 with ⟨rfl, -⟩ | ⟨rfl, -⟩ | ⟨v, ws, -, rfl, hbefore⟩
    · cases hacc
    · cases hacc
    · rw [hbefore] at hmem
      simp [Vote.call] at hmem

/-- How many deliveries a relay leads to, itself included. -/
def Relay.deliveries : Relay k → ℕ
  | .initGlobal _ => 1
  | .finalizeGlobal => 2 ^ k * 2 + 1
  | .finalizeShard _ => 2
  | .finalizeGather _ => 1

namespace Session

section

variable (hs : Session X weight names a b vs h c)
  (hfit : weigh weight (fun _ => True) (counted names.length vs) < 2 ^ 64)

include hs

theorem inSession : (machine X).Run (InSession names a b vs) ⟨empty X.shardOrder weight, 0⟩ h c :=
  hs.run.along ⟨[], hs.calls_eq⟩

theorem opening : Opening names h c :=
  opening_of_run hs.inSession (by simp [hs.calls_eq, sessionCalls])

theorem map_name_eq : c.state.proposals.map Proposal.name = names :=
  (hs.opening.state hs.run (Config.carried_of_quiescent _ hs.quiet)).2

include hfit

theorem outcomes_eq : outcomes h = (.finalize b, .ok none) :: castOutcomes names a vs :=
  outcomes_of_session hs.inSession hfit hs.calls_eq

theorem acceptedVotes_eq : acceptedVotes h = counted names.length vs := by
  rw [acceptedVotes_eq_filterMap, hs.outcomes_eq hfit]
  exact accepted_castOutcomes names a vs

theorem returned_eq : returned h = verdicts names.length vs := by
  rw [returned, hs.outcomes_eq hfit, castOutcomes, List.filterMap_cons, List.filterMap_append,
    List.filterMap_map]
  refine (List.append_nil _).trans ?_
  refine (List.filterMap_congr (g := some) fun p _ => ?_).trans List.filterMap_some
  obtain ⟨v, r⟩ := p
  cases r <;> rfl

/-- A session is a complete case. -/
theorem completeCase : CompleteCase X (empty X.shardOrder weight) h c := by
  refine ⟨hs.run.mono fun _ _ _ _ => trivial, hs.opening.init, ?_,
    opensFirst_of_single_case hs.run hs.opening.init.le, votesFirst_of_session hs.inSession,
    hs.quiet⟩
  rw [countP_eq_countP_outcomes (fun _ _ => rfl), hs.outcomes_eq hfit,
    List.countP_cons_of_pos rfl, finalizes_castOutcomes]

theorem oneWave : OneWave X (empty X.shardOrder weight) h := by
  refine ⟨(hs.completeCase hfit).finalize.le, fun i => ?_⟩
  rw [carriedOver_empty, Nat.zero_add, hs.acceptedVotes_eq hfit]
  exact (tally_le weight i _).trans_lt hfit

/-- The totals of a session are the votes that count. -/
theorem totalAt_eq (i : ℕ) :
    totalAt c.state.proposals i = tally weight i (counted names.length vs) := by
  rw [(hs.completeCase hfit).totals (inRange_empty weight) (hs.oneWave hfit), carriedOver_empty,
    Nat.zero_add, hs.acceptedVotes_eq hfit]
  rfl

/-- The result of a session is taken from its totals. -/
theorem topVoted_eq (hk : X.shardOrder ≤ 31) :
    c.state.lastResult.topVoted = topVoted c.state.proposals "" := by
  rw [(hs.completeCase hfit).result hk (inRange_empty weight) (hs.oneWave hfit)
    (Nat.one_lt_two_pow (by decide))]

end

/-- Every list of votes has a session. -/
theorem exists_session (X : Chain A) (weight : A → ℕ) (names : List String) (a b : A)
    (vs : List (Vote A)) : ∃ h c, Session X weight names a b vs h c := by
  have hpos : ∀ m : Relay X.shardOrder, 0 < m.deliveries := by
    intro m
    cases m <;> simp [Relay.deliveries]
  obtain ⟨h, c, hr, hq, hcalls⟩ := Machine.exists_eager_run (M := machine X) Relay.deliveries hpos
    (fun hk => by cases delivered_of_ok hk <;> simp [Relay.deliveries, Function.comp_def])
    (empty X.shardOrder weight) (sessionCalls names a b vs)
  refine ⟨h, c, hr.mono fun h c e he => ?_, hcalls, hq⟩
  cases e with
  | call m r => cases m <;> first | trivial | exact Config.carried_of_quiescent _ he
  | deliver m r => trivial

end Session

end Runs

end Ballot

end Preda

end RelayContracts
