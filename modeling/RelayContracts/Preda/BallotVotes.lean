import RelayContracts.Preda.BallotHistory
import Mathlib.Algebra.Order.BigOperators.Group.Finset

/-!
# Votes and tallies of the Ballot

The shard arrays hold the votes. Along every run, whatever is interleaved:

* an address has at most one accepted vote per case, since accepting one raises its `voted_case`
  to the case;
* a shard's array holds, at each index, the weight of the votes accepted for that index from the
  addresses of the shard, as long as these sums fit in a `uint64`;
* no array is longer than the list of proposals, nor is any copy in flight, since proposals are
  only ever added. So no index is ever out of range, although the gather loop checks nothing.

## Main definitions

* `acceptedVotes` — the vote calls of a history that returned true
* `tally`, `shardTally` — the weight of the votes for an index, in all and from one shard

## Main results

* `inRange_of_run`, `votedWeights_of_run`, `votes_ordered_of_run`
* `ballot_votes_exact` — the three together, for every run from a deployment
-/

namespace RelayContracts

namespace Preda

namespace Ballot

open RelayMachine

/-- An accepted vote. -/
structure Vote (A : Type) where
  /-- The address that voted. -/
  voter : A
  /-- The index voted for. -/
  proposalIndex : ℕ
  /-- The case voted in. -/
  caseNum : ℕ
  deriving DecidableEq, Repr

variable {A : Type} {k : ℕ}

/-- The vote an event accepted, if it is a vote call that returned true. -/
def accepted? : Event (Call A) (Relay k) (Option Bool) Fault → Option (Vote A)
  | .call (.vote a i n) (.ok (some true)) => some ⟨a, i, n⟩
  | _ => none

/-- The votes a history accepted, latest first. -/
def acceptedVotes (h : History A k) : List (Vote A) := h.filterMap accepted?

@[simp] theorem acceptedVotes_nil : acceptedVotes ([] : History A k) = [] := rfl

@[simp] theorem acceptedVotes_accept (a : A) (i n : ℕ) (h : History A k) :
    acceptedVotes (.call (.vote a i n) (.ok (some true)) :: h) = ⟨a, i, n⟩ :: acceptedVotes h := rfl

theorem acceptedVotes_some {e : Event (Call A) (Relay k) (Option Bool) Fault} {v : Vote A}
    (he : accepted? e = some v) (h : History A k) :
    acceptedVotes (e :: h) = v :: acceptedVotes h :=
  List.filterMap_cons_some he

theorem acceptedVotes_other {e : Event (Call A) (Relay k) (Option Bool) Fault}
    (he : accepted? e = none) (h : History A k) : acceptedVotes (e :: h) = acceptedVotes h :=
  List.filterMap_cons_none he

/-! ### Weighing votes -/

/-- The total weight of the votes with a property. -/
def weigh (weight : A → ℕ) (p : Vote A → Prop) [DecidablePred p] (vs : List (Vote A)) : ℕ :=
  (vs.map fun v => if p v then weight v.voter else 0).sum

/-- The weight of the votes for an index. -/
def tally (weight : A → ℕ) (i : ℕ) (vs : List (Vote A)) : ℕ :=
  weigh weight (fun v => v.proposalIndex = i) vs

/-- The weight of the votes for an index from the addresses of a shard. -/
def shardTally (X : Chain A) (weight : A → ℕ) (s : Fin (2 ^ X.shardOrder)) (i : ℕ)
    (vs : List (Vote A)) : ℕ :=
  weigh weight (fun v => X.shardOf v.voter = s ∧ v.proposalIndex = i) vs

section Weigh

variable (weight : A → ℕ) (p q : Vote A → Prop) [DecidablePred p] [DecidablePred q]

@[simp] theorem weigh_nil : weigh weight p [] = 0 := rfl

@[simp] theorem weigh_cons (v : Vote A) (vs : List (Vote A)) :
    weigh weight p (v :: vs) = (if p v then weight v.voter else 0) + weigh weight p vs :=
  List.sum_cons

@[simp] theorem tally_cons (i : ℕ) (v : Vote A) (vs : List (Vote A)) :
    tally weight i (v :: vs) = (if v.proposalIndex = i then weight v.voter else 0) +
      tally weight i vs := weigh_cons _ _ _ _

@[simp] theorem shardTally_cons (X : Chain A) (s : Fin (2 ^ X.shardOrder)) (i : ℕ) (v : Vote A)
    (vs : List (Vote A)) :
    shardTally X weight s i (v :: vs) =
      (if X.shardOf v.voter = s ∧ v.proposalIndex = i then weight v.voter else 0) +
        shardTally X weight s i vs := weigh_cons _ _ _ _

variable {p q}

theorem weigh_mono (hpq : ∀ v, p v → q v) (vs : List (Vote A)) :
    weigh weight p vs ≤ weigh weight q vs := by
  induction vs with
  | nil => exact Nat.le_refl 0
  | cons v vs ih =>
    rw [weigh_cons, weigh_cons]
    by_cases hp : p v
    · rw [if_pos hp, if_pos (hpq v hp)]
      omega
    · rw [if_neg hp]
      omega

theorem weigh_sublist (p : Vote A → Prop) [DecidablePred p] {vs ws : List (Vote A)}
    (hs : vs.Sublist ws) : weigh weight p vs ≤ weigh weight p ws :=
  (hs.map _).sum_le_sum fun _ _ => Nat.zero_le _

theorem tally_le (i : ℕ) (vs : List (Vote A)) :
    tally weight i vs ≤ weigh weight (fun _ => True) vs :=
  weigh_mono weight (fun _ _ => trivial) vs

theorem shardTally_le (X : Chain A) (s : Fin (2 ^ X.shardOrder)) (i : ℕ) (vs : List (Vote A)) :
    shardTally X weight s i vs ≤ tally weight i vs :=
  weigh_mono weight (fun _ hv => hv.2) vs

/-- The weight of the votes for an index, when no address has two: the sum over the addresses
that voted for it. -/
theorem tally_eq_sum [Fintype A] [DecidableEq A] {vs : List (Vote A)}
    (hvs : (vs.map Vote.voter).Nodup) (i : ℕ) :
    tally weight i vs =
      ∑ a with ∃ v ∈ vs, v.voter = a ∧ v.proposalIndex = i, weight a := by
  induction vs with
  | nil => simp [tally]
  | cons v vs ih =>
    obtain ⟨hv, hvs⟩ := List.nodup_cons.mp hvs
    rw [tally_cons, ih hvs]
    by_cases hi : v.proposalIndex = i
    · have hnew : v.voter ∉ Finset.univ.filter
          (fun a => ∃ v ∈ vs, v.voter = a ∧ v.proposalIndex = i) := by
        intro hmem
        obtain ⟨w, hw, hwv, -⟩ := (Finset.mem_filter.mp hmem).2
        exact hv (hwv ▸ List.mem_map_of_mem hw)
      rw [if_pos hi, ← Finset.sum_insert hnew]
      refine Finset.sum_congr (Finset.ext fun a => ?_) fun _ _ => rfl
      simp [hi, eq_comm]
    · rw [if_neg hi, Nat.zero_add]
      refine Finset.sum_congr (Finset.ext fun a => ?_) fun _ _ => rfl
      simp [hi]

/-- What the votes for an index weigh, when no address has two, is at most what all weigh. -/
theorem tally_le_sum [Fintype A] [DecidableEq A] {vs : List (Vote A)}
    (hvs : (vs.map Vote.voter).Nodup) (i : ℕ) : tally weight i vs ≤ ∑ a, weight a := by
  rw [tally_eq_sum weight hvs]
  exact Finset.sum_le_sum_of_subset (Finset.filter_subset _ _)

/-- Votes of distinct addresses weigh at most what all addresses do. -/
theorem weigh_le_sum [Fintype A] [DecidableEq A] {vs : List (Vote A)}
    (hvs : (vs.map Vote.voter).Nodup) : weigh weight (fun _ => True) vs ≤ ∑ a, weight a := by
  have hsum : weigh weight (fun _ => True) vs = ((vs.map Vote.voter).map weight).sum := by
    rw [weigh, List.map_map]
    rfl
  rw [hsum, ← List.sum_toFinset weight hvs]
  exact Finset.sum_le_sum_of_subset (Finset.subset_univ _)

/-- Where every address weighs 1, votes are counted. -/
theorem weigh_one (vs : List (Vote A)) : weigh (fun _ => 1) (fun _ => True) vs = vs.length := by
  simp [weigh]

/-- Votes weigh nothing at any index if none of the voters weighs anything. -/
theorem tally_eq_zero_iff {vs : List (Vote A)} :
    (∀ i, tally weight i vs = 0) ↔ ∀ v ∈ vs, weight v.voter = 0 := by
  constructor
  · intro h v hv
    have hi := List.sum_eq_zero_iff.mp (h v.proposalIndex) _ (List.mem_map_of_mem hv)
    rwa [if_pos rfl] at hi
  · intro h i
    refine List.sum_eq_zero_iff.mpr fun n hn => ?_
    obtain ⟨v, hv, rfl⟩ := List.mem_map.mp hn
    split
    · exact h v hv
    · rfl

/-- The shards between them hold every vote once. -/
theorem sum_shardTally (X : Chain A) (i : ℕ) (vs : List (Vote A)) :
    ∑ s, shardTally X weight s i vs = tally weight i vs := by
  induction vs with
  | nil => simp [shardTally, tally]
  | cons v vs ih =>
    have hv : ∑ s, (if X.shardOf v.voter = s ∧ v.proposalIndex = i then weight v.voter else 0) =
        if v.proposalIndex = i then weight v.voter else 0 := by
      by_cases hi : v.proposalIndex = i <;> simp [hi]
    simp only [shardTally_cons, tally_cons, Finset.sum_add_distrib, ih, hv]

end Weigh

/-! ### Indices stay in range -/

/-- No shard's array, and no copy of one in flight, is longer than the list of proposals. -/
structure InRange (c : Config (State A k) (Relay k)) : Prop where
  /-- The arrays of the shards. -/
  shard : ∀ s, (c.state.votedWeights s).length ≤ c.state.proposals.length
  /-- The copies in flight. -/
  gather : ∀ votes, .finalizeGather votes ∈ c.inFlight → votes.length ≤ c.state.proposals.length

theorem inRange_empty (weight : A → ℕ) : InRange (⟨empty k weight, 0⟩ : Config _ (Relay k)) :=
  ⟨fun _ => Nat.le_refl 0, fun _ hv => absurd hv (Multiset.notMem_zero _)⟩

/-- A step that emits no copy and only adds proposals keeps the copies in range. -/
theorem InRange.grow {c : Config (State A k) (Relay k)} (hc : InRange c) {s : State A k}
    {rest : Multiset (Relay k)} {out : List (Relay k)} (hrest : rest ≤ c.inFlight)
    (hlen : c.state.proposals.length ≤ s.proposals.length)
    (hshard : ∀ i, (s.votedWeights i).length ≤ s.proposals.length)
    (hout : ∀ votes, .finalizeGather votes ∈ out → votes.length ≤ s.proposals.length) :
    InRange ⟨s, rest + out⟩ := by
  refine ⟨hshard, fun votes hv => ?_⟩
  rcases Multiset.mem_add.mp hv with hv | hv
  · exact Nat.le_trans (hc.gather votes (Multiset.mem_of_le hrest hv)) hlen
  · exact hout votes (Multiset.mem_coe.mp hv)

section Runs

variable [DecidableEq A] {X : Chain A} {c₀ c : Config (State A X.shardOrder) (Relay X.shardOrder)}
  {G : History A X.shardOrder → Config (State A X.shardOrder) (Relay X.shardOrder) →
    Event (Call A) (Relay X.shardOrder) (Option Bool) Fault → Prop}
  {h : History A X.shardOrder}

theorem InRange.call (hc : InRange c) {m : Call A}
    {eff : Effect (State A X.shardOrder) (Relay X.shardOrder) (Option Bool)}
    (hk : Called X c.state m eff) : InRange ⟨eff.state, c.inFlight + eff.relays⟩ := by
  cases hk with
  | init => exact hc.grow le_rfl (Nat.le_refl _) hc.shard (by simp)
  | @accept a i n tallied hcase hvoted hi hadd =>
    refine hc.grow le_rfl (Nat.le_refl _) (fun j => ?_) (by simp)
    by_cases hj : j = X.shardOf a
    · subst hj
      have hlen := length_of_addAt hadd
      rw [length_setLength] at hlen
      simp [hlen]
    · simpa [Function.update_of_ne hj] using hc.shard j
  | reject => exact hc.grow le_rfl (Nat.le_refl _) hc.shard (by simp)
  | finalize => exact hc.grow le_rfl (Nat.le_refl _) hc.shard (by simp)

omit [DecidableEq A] in
theorem InRange.deliver {s : State A X.shardOrder} {m : Relay X.shardOrder}
    {rest : Multiset (Relay X.shardOrder)} (hc : InRange ⟨s, m ::ₘ rest⟩)
    {eff : Effect (State A X.shardOrder) (Relay X.shardOrder) (Option Bool)}
    (hk : Delivered X s m eff) : InRange ⟨eff.state, rest + eff.relays⟩ := by
  have hrest : rest ≤ m ::ₘ rest := Multiset.le_cons_self rest m
  cases hk with
  | @initGlobal names n hn =>
    have hlen : s.proposals.length ≤
        (s.proposals ++ names.map fun name => (⟨name, 0⟩ : Proposal)).length := by simp
    exact hc.grow hrest hlen (fun i => Nat.le_trans (hc.shard i) hlen) (by simp)
  | finalizeGlobal => exact hc.grow hrest (Nat.le_refl _) hc.shard (by simp)
  | @finalizeShard i =>
    refine hc.grow hrest (Nat.le_refl _) hc.shard fun votes hv => ?_
    obtain rfl : votes = s.votedWeights i := by simpa using hv
    exact hc.shard i
  | @gather votes ps r hps hr hmore =>
    have hlen := length_of_addShardVotes hps
    exact hc.grow hrest hlen.ge (fun i => (hc.shard i).trans hlen.ge) (by simp)
  | @complete votes ps hps hr =>
    have hlen := length_of_addShardVotes hps
    exact hc.grow hrest hlen.ge (fun i => (hc.shard i).trans hlen.ge) (by simp)

theorem inRange_of_run (hr : (machine X).Run G c₀ h c) (h₀ : InRange c₀) : InRange c := by
  refine hr.invariant (I := fun _ c => InRange c) h₀ ?_ ?_ ?_ ?_
  · exact fun _ hc _ hk => hc.call (called_of_ok hk)
  · exact fun _ hc _ _ => hc
  · exact fun _ hc _ hk => hc.deliver (delivered_of_ok hk)
  · exact fun _ hc _ _ => ⟨hc.shard, fun votes hv => hc.gather votes (Multiset.mem_cons_of_mem hv)⟩

/-- A call never accesses an array out of range. -/
theorem call_ne_outOfRange {s : State A X.shardOrder} (m : Call A) :
    (machine X).call m s ≠ .error .outOfRange := by
  cases m with
  | init a names =>
    change (if IsVoting s then _ else _) ≠ _
    split <;> simp
  | vote a i n =>
    change vote X a i n s ≠ _
    rw [vote]
    split
    · rename_i hacc
      intro h
      rcases of_bind_eq_error h with h | ⟨tallied, -, h⟩
      · exact addAt_ne_outOfRange (by rw [length_setLength]; exact hacc.2.2) h
      · cases h
    · simp
  | finalize a =>
    change (if IsVoting s then _ else _) ≠ _
    split <;> simp

/-- A relay in flight never accesses an array out of range. -/
theorem InRange.relay_ne_outOfRange {s : State A X.shardOrder} {m : Relay X.shardOrder}
    {rest : Multiset (Relay X.shardOrder)} (hc : InRange ⟨s, m ::ₘ rest⟩) :
    (machine X).relay m s ≠ .error .outOfRange := by
  intro h
  cases m with
  | initGlobal names =>
    rcases of_bind_eq_error (show initGlobal X.overflow names s = _ from h) with h | ⟨n, -, h⟩
    · exact addU_ne_outOfRange h
    · cases h
  | finalizeGlobal => cases h
  | finalizeShard i => cases h
  | finalizeGather votes =>
    have hlen : votes.length ≤ s.proposals.length := hc.gather votes (Multiset.mem_cons_self _ _)
    rcases of_bind_eq_error (show finalizeGather X.overflow votes s = _ from h) with h | ⟨ps, -, h⟩
    · exact addShardVotes_ne_outOfRange hlen h
    · rcases of_bind_eq_error h with h | ⟨⟨completed, s'⟩, -, h⟩
      · rcases of_bind_eq_error h with h | ⟨r, -, h⟩
        · exact addU_ne_outOfRange h
        · cases h
      · cases completed <;> cases h

/-- No fragment of a run ends in an access out of range. -/
theorem no_outOfRange_of_run (hr : (machine X).Run G c₀ h c) (h₀ : InRange c₀) :
    (∀ m, .call m (.error .outOfRange) ∉ h) ∧ ∀ m, .deliver m (.error .outOfRange) ∉ h := by
  refine hr.invariant (I := fun h _ => (∀ m, .call m (.error .outOfRange) ∉ h) ∧
    ∀ m, .deliver m (.error .outOfRange) ∉ h) (by simp) ?_ ?_ ?_ ?_
  · intro h c m eff _ ih _ _
    simpa using ih
  · intro h c m f _ ih _ hk
    have hf : f ≠ .outOfRange := fun hf => call_ne_outOfRange m (hf ▸ hk)
    simpa [hf.symm] using ih
  · intro h s m rest eff _ ih _ _
    simpa using ih
  · intro h s m rest f hr ih _ hk
    have hf : f ≠ .outOfRange := fun hf => (inRange_of_run hr h₀).relay_ne_outOfRange (hf ▸ hk)
    simpa [hf.symm] using ih

/-! ### The arrays hold the accepted votes -/

/-- The weights are never written. -/
theorem weight_of_run (hr : (machine X).Run G c₀ h c) : c.state.weight = c₀.state.weight := by
  refine hr.invariant (I := fun _ c => c.state.weight = c₀.state.weight) rfl ?_ ?_ ?_ ?_
  · intro h c m eff _ ih _ hk
    cases called_of_ok hk <;> exact ih
  · exact fun _ ih _ _ => ih
  · intro h s m rest eff _ ih _ hk
    cases delivered_of_ok hk <;> exact ih
  · exact fun _ ih _ _ => ih

omit [DecidableEq A] in
/-- The shard arrays after an accepted vote. -/
theorem getD_votedWeights_accept {s : State A X.shardOrder} {a : A} {i : ℕ} {tallied : List ℕ}
    (hadd : addAt X.overflow 64 (setLength 0 s.proposals.length (s.votedWeights (X.shardOf a))) i
      (s.weight a) = .ok tallied)
    (hlen : (s.votedWeights (X.shardOf a)).length ≤ s.proposals.length)
    (hfit : (s.votedWeights (X.shardOf a)).getD i 0 + s.weight a < 2 ^ 64)
    (t : Fin (2 ^ X.shardOrder)) (j : ℕ) :
    (Function.update s.votedWeights (X.shardOf a) tallied t).getD j 0 =
      (if X.shardOf a = t ∧ i = j then s.weight a else 0) + (s.votedWeights t).getD j 0 := by
  by_cases ht : t = X.shardOf a
  · subst ht
    rw [← getD_setLength 0 hlen] at hfit
    rw [Function.update_self, getD_of_addAt hadd hfit, getD_setLength 0 hlen]
    by_cases hj : j = i
    · rw [if_pos hj, if_pos ⟨rfl, hj.symm⟩]
      omega
    · rw [if_neg hj, if_neg fun hc => hj hc.2.symm]
      omega
  · rw [Function.update_of_ne ht, if_neg fun hc => ht hc.1.symm]
    omega

/-- **The arrays hold the accepted votes.** As long as the sums fit, every shard's array holds at
every index what it held at the start and the weight of the votes accepted since. -/
theorem votedWeights_of_run (hr : (machine X).Run G c₀ h c) (h₀ : InRange c₀)
    (hfit : ∀ t i, (c₀.state.votedWeights t).getD i 0 +
      shardTally X c₀.state.weight t i (acceptedVotes h) < 2 ^ 64)
    (t : Fin (2 ^ X.shardOrder)) (i : ℕ) :
    (c.state.votedWeights t).getD i 0 = (c₀.state.votedWeights t).getD i 0 +
      shardTally X c₀.state.weight t i (acceptedVotes h) := by
  refine hr.invariant (I := fun h c => (∀ t i, (c₀.state.votedWeights t).getD i 0 +
    shardTally X c₀.state.weight t i (acceptedVotes h) < 2 ^ 64) →
    ∀ t i, (c.state.votedWeights t).getD i 0 = (c₀.state.votedWeights t).getD i 0 +
      shardTally X c₀.state.weight t i (acceptedVotes h)) ?_ ?_ ?_ ?_ ?_ hfit t i
  · exact fun _ _ _ => rfl
  · intro h c m eff hr ih _ hk hfit
    cases called_of_ok hk with
    | init => exact ih hfit
    | @accept a j n tallied hcase hvoted hj hadd =>
      have hw : c.state.weight = c₀.state.weight := weight_of_run hr
      simp only [acceptedVotes_accept, shardTally_cons] at hfit ⊢
      have ih := ih fun t i => Nat.lt_of_le_of_lt (by omega) (hfit t i)
      have hfit' : (c.state.votedWeights (X.shardOf a)).getD j 0 + c.state.weight a < 2 ^ 64 := by
        have := hfit (X.shardOf a) j
        rw [if_pos ⟨rfl, rfl⟩] at this
        rw [ih, hw]
        omega
      intro t i
      have hrange := (inRange_of_run hr h₀).shard (X.shardOf a)
      rw [getD_votedWeights_accept hadd hrange hfit', ih, hw]
      omega
    | reject => exact ih hfit
    | finalize => exact ih hfit
  · intro h c m f _ ih _ _ hfit
    rw [acceptedVotes_other (by cases m <;> rfl)] at hfit ⊢
    exact ih hfit
  · intro h s m rest eff _ ih _ hk hfit
    rw [acceptedVotes_other rfl] at hfit ⊢
    cases delivered_of_ok hk <;> exact ih hfit
  · intro h s m rest f _ ih _ _ hfit
    exact ih hfit

/-! ### One vote per address and case -/

/-- An address's `voted_case` never decreases. -/
theorem votedCase_mono (hr : (machine X).Run G c₀ h c) (a : A) :
    c₀.state.votedCase a ≤ c.state.votedCase a := by
  refine hr.invariant (I := fun _ c => c₀.state.votedCase a ≤ c.state.votedCase a)
    (Nat.le_refl _) ?_ ?_ ?_ ?_
  · intro h c m eff _ ih _ hk
    cases called_of_ok hk with
    | @accept b i n tallied hcase hvoted hi hadd =>
      by_cases hb : a = b
      · subst hb
        simp only [Function.update_self]
        omega
      · simpa [Function.update_of_ne hb] using ih
    | _ => exact ih
  · exact fun _ ih _ _ => ih
  · intro h s m rest eff _ ih _ hk
    cases delivered_of_ok hk <;> exact ih
  · exact fun _ ih _ _ => ih

/-- Of two accepted votes of one address the later is for a higher case, and its `voted_case` is
at least the case of each. -/
theorem votes_ordered_of_run (hr : (machine X).Run G c₀ h c) :
    (acceptedVotes h).Pairwise (fun v w => v.voter = w.voter → w.caseNum < v.caseNum) ∧
      ∀ v ∈ acceptedVotes h, v.caseNum ≤ c.state.votedCase v.voter := by
  refine hr.invariant (I := fun h c =>
    (acceptedVotes h).Pairwise (fun v w => v.voter = w.voter → w.caseNum < v.caseNum) ∧
      ∀ v ∈ acceptedVotes h, v.caseNum ≤ c.state.votedCase v.voter) (by simp) ?_ ?_ ?_ ?_
  · intro h c m eff _ ih _ hk
    cases called_of_ok hk with
    | @accept b i n tallied hcase hvoted hi hadd =>
      rw [acceptedVotes_accept]
      refine ⟨List.pairwise_cons.mpr ⟨fun w hw hb => ?_, ih.1⟩, fun v hv => ?_⟩
      · have hle := ih.2 w hw
        rw [← hb] at hle
        exact Nat.lt_of_le_of_lt hle hvoted
      · rcases List.mem_cons.mp hv with rfl | hv
        · simp
        · by_cases hb : v.voter = b
          · have hle := ih.2 v hv
            rw [hb] at hle
            simp only [hb, Function.update_self]
            omega
          · simpa [Function.update_of_ne hb] using ih.2 v hv
    | _ => exact ih
  · intro h c m f _ ih _ _
    rw [acceptedVotes_other (by cases m <;> rfl)]
    exact ih
  · intro h s m rest eff _ ih _ hk
    rw [acceptedVotes_other rfl]
    cases delivered_of_ok hk <;> exact ih
  · intro h s m rest f _ ih _ _
    exact ih

/-- An accepted vote is for a case above the `voted_case` its address started with. -/
theorem votedCase_lt_of_mem (hr : (machine X).Run G c₀ h c) :
    ∀ v ∈ acceptedVotes h, c₀.state.votedCase v.voter < v.caseNum := by
  refine hr.invariant (I := fun h _ => ∀ v ∈ acceptedVotes h,
    c₀.state.votedCase v.voter < v.caseNum) (by simp) ?_ ?_ ?_ ?_
  · intro h c m eff hr ih _ hk
    cases called_of_ok hk with
    | @accept b i n tallied hcase hvoted hi hadd =>
      intro v hv
      rcases List.mem_cons.mp hv with rfl | hv
      · exact Nat.lt_of_le_of_lt (votedCase_mono hr b) hvoted
      · exact ih v hv
    | _ => exact ih
  · intro h c m f _ ih _ _
    rw [acceptedVotes_other (by cases m <;> rfl)]
    exact ih
  · exact fun _ ih _ _ => ih
  · exact fun _ ih _ _ => ih

/-- Within one case, the voters are distinct. -/
theorem voters_nodup (hr : (machine X).Run G c₀ h c) {n : ℕ}
    (hn : ∀ v ∈ acceptedVotes h, v.caseNum = n) : ((acceptedVotes h).map Vote.voter).Nodup := by
  rw [List.nodup_iff_pairwise_ne, List.pairwise_map]
  refine (votes_ordered_of_run hr).1.imp_of_mem fun hv hw hlt heq => ?_
  have := hlt heq
  rw [hn _ hv, hn _ hw] at this
  omega

/-- `voted_case` never exceeds `current_case`. A runtime that wraps could only break this by
wrapping `current_case` itself, which takes `2 ^ 32` cases. -/
theorem votedCase_le_currentCase {weight : A → ℕ}
    (hr : (machine X).Run G ⟨empty X.shardOrder weight, 0⟩ h c)
    (hcases : X.overflow = .trap ∨ h.countP isOpen < 2 ^ 32) :
    c.state.currentCase ≤ h.countP isOpen ∧ ∀ a, c.state.votedCase a ≤ c.state.currentCase := by
  refine hr.invariant (I := fun h c => X.overflow = .trap ∨ h.countP isOpen < 2 ^ 32 →
    c.state.currentCase ≤ h.countP isOpen ∧ ∀ a, c.state.votedCase a ≤ c.state.currentCase)
    (fun _ => ⟨Nat.le_refl 0, fun _ => Nat.le_refl 0⟩) ?_ ?_ ?_ ?_ hcases
  · intro h c m eff _ ih _ hk hcases
    rw [List.countP_cons_of_neg (by cases m <;> simp [isOpen])] at hcases ⊢
    cases called_of_ok hk with
    | @accept b i n tallied hcase hvoted hi hadd =>
      refine ⟨(ih hcases).1, fun a => ?_⟩
      by_cases hb : a = b
      · subst hb
        simp [hcase]
      · simpa [Function.update_of_ne hb] using (ih hcases).2 a
    | _ => exact ih hcases
  · intro h c m f _ ih _ _ hcases
    rw [List.countP_cons_of_neg (by cases m <;> simp [isOpen])] at hcases ⊢
    exact ih hcases
  · intro h s m rest eff _ ih _ hk hcases
    cases delivered_of_ok hk with
    | @initGlobal names n hn =>
      rw [List.countP_cons_of_pos rfl] at hcases ⊢
      obtain ⟨hcur, hvoted⟩ : s.currentCase ≤ h.countP isOpen ∧
          ∀ a, s.votedCase a ≤ s.currentCase := ih (hcases.imp_right (by omega))
      have hn : n = s.currentCase + 1 := by
        rcases hcases with htrap | hlt
        · rw [htrap] at hn
          exact (addU_trap_eq_ok.mp hn).2
        · rw [addU_of_lt (by omega)] at hn
          cases hn
          rfl
      subst hn
      exact ⟨Nat.succ_le_succ hcur, fun a => Nat.le_succ_of_le (hvoted a)⟩
    | _ => exact ih hcases
  · intro h s m rest f _ ih _ _ hcases
    have hle : h.countP isOpen ≤ (Event.deliver m (.error f) :: h).countP isOpen :=
      (List.sublist_cons_self _ _).countP_le
    obtain ⟨hcur, hvoted⟩ := ih (hcases.imp_right (Nat.lt_of_le_of_lt hle))
    exact ⟨Nat.le_trans hcur hle, hvoted⟩

omit [DecidableEq A] in
/-- In a list in which no two members with a property are related as the list relates its
members, at most one member has the property. -/
theorem countP_le_one_of_pairwise {p : Vote A → Bool} {R : Vote A → Vote A → Prop}
    (hR : ∀ v w, p v → p w → ¬ R v w) : ∀ {vs : List (Vote A)}, vs.Pairwise R → vs.countP p ≤ 1
  | [], _ => by simp
  | v :: vs, hvs => by
    obtain ⟨hv, hvs⟩ := List.pairwise_cons.mp hvs
    by_cases hp : p v
    · have hzero : vs.countP p = 0 :=
        List.countP_eq_zero.mpr fun w hw hpw => hR v w hp hpw (hv w hw)
      rw [List.countP_cons_of_pos hp, hzero]
    · rw [List.countP_cons_of_neg hp]
      exact countP_le_one_of_pairwise hR hvs

/-- **Votes are counted once, exactly, and in range.** Along every run from a deployment, whatever
is interleaved, with the weight of the accepted votes below `2 ^ 64`:

* an address has at most one accepted vote per case, and its `voted_case` neither exceeds
  `current_case` (unless a wrapping runtime has wrapped that counter) nor ever decreases;
* a shard's array holds at each index the weight of the votes accepted for it from the shard;
* no array and no copy in flight is longer than the list of proposals, and no fragment has failed
  by accessing an array out of range. -/
theorem ballot_votes_exact {weight : A → ℕ}
    (hr : (machine X).Run Anything ⟨empty X.shardOrder weight, 0⟩ h c)
    (hw : weigh weight (fun _ => True) (acceptedVotes h) < 2 ^ 64) :
    ((∀ a n, (acceptedVotes h).countP (fun v => v.voter = a ∧ v.caseNum = n) ≤ 1) ∧
      (X.overflow = .trap ∨ h.countP isOpen < 2 ^ 32 →
        ∀ a, c.state.votedCase a ≤ c.state.currentCase) ∧
      ∀ h' c', (machine X).Run Anything c h' c' →
        ∀ a, c.state.votedCase a ≤ c'.state.votedCase a) ∧
    (∀ t i (hi : i < (c.state.votedWeights t).length),
      (c.state.votedWeights t)[i] = shardTally X weight t i (acceptedVotes h)) ∧
    (∀ t, (c.state.votedWeights t).length ≤ c.state.proposals.length) ∧
    (∀ votes, .finalizeGather votes ∈ c.inFlight → votes.length ≤ c.state.proposals.length) ∧
    (∀ m, .call m (.error .outOfRange) ∉ h) ∧ ∀ m, .deliver m (.error .outOfRange) ∉ h := by
  have hrange := inRange_of_run hr (inRange_empty weight)
  refine ⟨⟨fun a n => ?_, fun hcases => (votedCase_le_currentCase hr hcases).2,
    fun h' c' hr' => votedCase_mono hr'⟩, fun t i hi => ?_, hrange.shard, hrange.gather,
    no_outOfRange_of_run hr (inRange_empty weight)⟩
  · refine countP_le_one_of_pairwise (fun v w hv hw hvw => ?_) (votes_ordered_of_run hr).1
    obtain ⟨hva, hvn⟩ := of_decide_eq_true hv
    obtain ⟨hwa, hwn⟩ := of_decide_eq_true hw
    have hlt := hvw (hva.trans hwa.symm)
    omega
  · have hfit : ∀ t i, ((empty X.shardOrder weight).votedWeights t).getD i 0 +
        shardTally X weight t i (acceptedVotes h) < 2 ^ 64 := by
      intro t i
      have h1 := shardTally_le weight X t i (acceptedVotes h)
      have h2 := tally_le weight i (acceptedVotes h)
      have h3 : ((empty X.shardOrder weight).votedWeights t).getD i 0 = 0 := rfl
      omega
    have heq := votedWeights_of_run hr (inRange_empty weight) hfit t i
    rw [List.getD_eq_getElem _ _ hi] at heq
    rw [heq]
    exact Nat.zero_add _

end Runs

/-- Two accepted votes, a repeated one that is rejected, and a finalization under way. -/
theorem ballot_votes_exact_twoShards : ∃ h c,
    (machine (twoShards .trap)).Run Anything ⟨empty 1 fun _ => 5, 0⟩ h c ∧
      acceptedVotes h = [⟨1, 0, 1⟩, ⟨0, 1, 1⟩] ∧
      weigh (fun _ => 5) (fun _ => True) (acceptedVotes h) = 10 ∧
      .finalizeGather [0, 5] ∈ c.inFlight ∧
      (∀ a, c.state.votedCase a ≤ c.state.currentCase) ∧
      ∀ t i (hi : i < (c.state.votedWeights t).length),
        (c.state.votedWeights t)[i] = shardTally (twoShards .trap) (fun _ => 5) t i
          (acceptedVotes h) := by
  obtain ⟨⟨h, c⟩, hx, hvotes, hmem⟩ :
      ∃ r ∈ (machine (twoShards .trap)).exec Anything ⟨empty 1 fun _ => 5, 0⟩
        [.call (.init 0 ["Spring", "Yarn"]), .deliver (.initGlobal ["Spring", "Yarn"]),
          .call (.vote 0 1 1), .call (.vote 1 0 1), .call (.vote 0 0 1), .call (.finalize 0),
          .deliver .finalizeGlobal, .deliver (.finalizeShard 0)],
        acceptedVotes r.1 = [⟨1, 0, 1⟩, ⟨0, 1, 1⟩] ∧ .finalizeGather [0, 5] ∈ r.2.inFlight := by
    decide
  have hr := Machine.exec_run hx
  have hw : weigh (fun _ => 5) (fun _ => True) (acceptedVotes h) = 10 := by rw [hvotes]; rfl
  obtain ⟨⟨-, hle, -⟩, hexact, -⟩ := ballot_votes_exact hr (by rw [hw]; decide)
  exact ⟨h, c, hr, hvotes, hw, hmem, hle (.inl rfl), hexact⟩

end Ballot

end Preda

end RelayContracts
