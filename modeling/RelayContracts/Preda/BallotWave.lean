import RelayContracts.Preda.BallotVotes

/-!
# One finalization of the Ballot

A finalization sends the array of every shard to the global scope and adds it there. This file
follows one finalization through any interleaving with votes, from a state with nothing in flight.

Nothing identifies an array in flight with the shard it came from, so the argument does not follow
the arrays. It is an accounting: at every index, what has been added to the totals and what the
arrays in flight carry is what the shards have sent (`Wave.totals`), and the ratio counts the
arrays gathered since the reset (`Wave.ratio`). That the ratio is complete exactly when every
array is in is then a fact about counting.

A shard sends what its array holds when it is asked. So a vote counts if it was accepted before
its shard was asked; `timelyVotes` are those votes.

## Main results

* `wave_of_run` — the accounting, along every run with at most one finalization
* `totals_of_quiescent` — with nothing left in flight, the totals have grown by what the arrays
  held at the start and the timely votes
-/

namespace RelayContracts

namespace Preda

namespace Ballot

open RelayMachine

/-! ### The ratio -/

theorem shardShare_of_le {k : ℕ} (hk : k ≤ 31) : shardShare k = 2 ^ (31 - k) := by
  rw [shardShare, Nat.shiftRight_eq_div_pow, show 0x80000000 = 2 ^ 31 from rfl,
    Nat.pow_div hk (by decide)]

theorem shardShare_of_gt {k : ℕ} (hk : 31 < k) : shardShare k = 0 := by
  rw [shardShare, Nat.shiftRight_eq_div_pow]
  exact Nat.div_eq_of_lt (Nat.lt_of_lt_of_le (by decide) (Nat.pow_le_pow_right (by decide) hk))

/-- With no more than one share per shard, the ratio does not pass completion. -/
theorem mul_shardShare_le {k g : ℕ} (hg : g ≤ 2 ^ k) : g * shardShare k ≤ 0x80000000 := by
  rcases Nat.lt_or_ge 31 k with hk | hk
  · rw [shardShare_of_gt hk]
    simp
  · calc g * shardShare k ≤ 2 ^ k * 2 ^ (31 - k) := by
          rw [shardShare_of_le hk]
          exact Nat.mul_le_mul_right _ hg
      _ = 0x80000000 := by rw [← Nat.pow_add, Nat.add_sub_cancel' hk]

/-- A complete ratio has one share from every shard. -/
theorem eq_of_mul_shardShare_eq {k g : ℕ} (h : g * shardShare k = 0x80000000) : g = 2 ^ k := by
  rcases Nat.lt_or_ge 31 k with hk | hk
  · rw [shardShare_of_gt hk] at h
    omega
  · rw [shardShare_of_le hk] at h
    refine Nat.eq_of_mul_eq_mul_right (Nat.two_pow_pos (31 - k)) ?_
    rw [h, ← Nat.pow_add, Nat.add_sub_cancel' hk]

/-- Up to order 31, one share from every shard is a complete ratio. -/
theorem mul_shardShare_eq_iff {k g : ℕ} (hk : k ≤ 31) :
    g * shardShare k = 0x80000000 ↔ g = 2 ^ k := by
  refine ⟨eq_of_mul_shardShare_eq, ?_⟩
  rintro rfl
  rw [shardShare_of_le hk, ← Nat.pow_add, Nat.add_sub_cancel' hk]

/-! ### What the shards have sent -/

section Sent

variable {A : Type} (X : Chain A) (s₀ : State A X.shardOrder)

/-- What the array of a shard holds at an index: what it held at the start and the weight of the
votes accepted since. -/
def held (t : Fin (2 ^ X.shardOrder)) (i : ℕ) (vs : List (Vote A)) : ℕ :=
  (s₀.votedWeights t).getD i 0 + shardTally X s₀.weight t i vs

/-- What a finalization finds at an index if no vote is accepted from here on: the total so far and
what the shards hold. -/
def carriedOver (i : ℕ) : ℕ := totalAt s₀.proposals i + ∑ t, (s₀.votedWeights t).getD i 0

theorem add_sum_held (i : ℕ) (vs : List (Vote A)) :
    totalAt s₀.proposals i + ∑ t, held X s₀ t i vs = carriedOver X s₀ i + tally s₀.weight i vs := by
  simp only [held, carriedOver, Finset.sum_add_distrib, sum_shardTally, Nat.add_assoc]

/-- What the arrays sent so far carried at an index. -/
def sent (i : ℕ) : History A X.shardOrder → ℕ
  | [] => 0
  | .deliver (.finalizeShard t) _ :: h => held X s₀ t i (acceptedVotes h) + sent i h
  | _ :: h => sent i h

/-- The accepted votes whose shard had not yet sent its array. -/
def timelyVotes : History A X.shardOrder → List (Vote A)
  | [] => []
  | e :: h =>
    match accepted? e with
    | some v =>
      if h.countP (isSnapshot (X.shardOf v.voter)) = 0 then v :: timelyVotes h else timelyVotes h
    | none => timelyVotes h

theorem timelyVotes_other {e : Event (Call A) (Relay X.shardOrder) (Option Bool) Fault}
    (he : accepted? e = none) (h : History A X.shardOrder) :
    timelyVotes X (e :: h) = timelyVotes X h := by
  rw [timelyVotes, he]

theorem timelyVotes_some {e : Event (Call A) (Relay X.shardOrder) (Option Bool) Fault} {v : Vote A}
    (he : accepted? e = some v) (h : History A X.shardOrder) :
    timelyVotes X (e :: h) = if h.countP (isSnapshot (X.shardOf v.voter)) = 0
      then v :: timelyVotes X h else timelyVotes X h := by
  rw [timelyVotes, he]

theorem timelyVotes_sublist (h : History A X.shardOrder) :
    (timelyVotes X h).Sublist (acceptedVotes h) := by
  induction h with
  | nil => exact .slnil
  | cons e h ih =>
    cases he : accepted? e with
    | none =>
      rw [timelyVotes_other X he, acceptedVotes_other he]
      exact ih
    | some v =>
      rw [timelyVotes_some X he, acceptedVotes_some he]
      split
      · exact ih.cons_cons v
      · exact ih.cons v

/-- The accepted votes whose shard had already sent its array. -/
def lateVotes : History A X.shardOrder → List (Vote A)
  | [] => []
  | e :: h =>
    match accepted? e with
    | some v =>
      if h.countP (isSnapshot (X.shardOf v.voter)) = 0 then lateVotes h else v :: lateVotes h
    | none => lateVotes h

/-- A vote is timely or late. -/
theorem tally_timelyVotes_add (weight : A → ℕ) (i : ℕ) (h : History A X.shardOrder) :
    tally weight i (timelyVotes X h) + tally weight i (lateVotes X h) =
      tally weight i (acceptedVotes h) := by
  induction h with
  | nil => rfl
  | cons e h ih =>
    cases he : accepted? e with
    | none => rw [timelyVotes_other X he, acceptedVotes_other he, ← ih, lateVotes, he]
    | some v =>
      rw [timelyVotes_some X he, acceptedVotes_some he, tally_cons, ← ih, lateVotes, he]
      by_cases hv : h.countP (isSnapshot (X.shardOf v.voter)) = 0
      · simp only [if_pos hv, tally_cons]
        omega
      · simp only [if_neg hv, tally_cons]
        omega

/-- Until a shard has sent its array, all its votes are timely. -/
theorem shardTally_timelyVotes {t : Fin (2 ^ X.shardOrder)} {h : History A X.shardOrder}
    (ht : h.countP (isSnapshot t) = 0) (weight : A → ℕ) (i : ℕ) :
    shardTally X weight t i (timelyVotes X h) = shardTally X weight t i (acceptedVotes h) := by
  induction h with
  | nil => rfl
  | cons e h ih =>
    have hle : h.countP (isSnapshot t) ≤ (e :: h).countP (isSnapshot t) :=
      (List.sublist_cons_self e h).countP_le
    have ht' : h.countP (isSnapshot t) = 0 := by omega
    cases he : accepted? e with
    | none => rw [timelyVotes_other X he, acceptedVotes_other he, ih ht']
    | some v =>
      rw [timelyVotes_some X he, acceptedVotes_some he, shardTally_cons, ← ih ht']
      by_cases hv : X.shardOf v.voter = t
      · rw [hv, if_pos ht', shardTally_cons, hv]
      · have hno : ¬ (X.shardOf v.voter = t ∧ v.proposalIndex = i) := fun hc => hv hc.1
        rw [if_neg hno, Nat.zero_add]
        split
        · rw [shardTally_cons, if_neg hno, Nat.zero_add]
        · rfl

/-- Once a shard has sent its array, its timely votes no longer change. -/
theorem shardTally_timelyVotes_cons {t : Fin (2 ^ X.shardOrder)} {h : History A X.shardOrder}
    (ht : h.countP (isSnapshot t) ≠ 0) (weight : A → ℕ) (i : ℕ)
    (e : Event (Call A) (Relay X.shardOrder) (Option Bool) Fault) :
    shardTally X weight t i (timelyVotes X (e :: h)) =
      shardTally X weight t i (timelyVotes X h) := by
  cases he : accepted? e with
  | none => rw [timelyVotes_other X he]
  | some v =>
    rw [timelyVotes_some X he]
    split
    · rename_i hv
      have hno : ¬ (X.shardOf v.voter = t ∧ v.proposalIndex = i) := fun hc => ht (hc.1 ▸ hv)
      rw [shardTally_cons, if_neg hno, Nat.zero_add]
    · rfl

omit X s₀ in
theorem exists_of_isShard {k : ℕ} {e : Event (Call A) (Relay k) (Option Bool) Fault}
    (he : isShard e) : ∃ t r, e = .deliver (.finalizeShard t) r := by
  cases e with
  | call m r => cases he
  | deliver m r =>
    cases m with
    | finalizeShard t => exact ⟨t, r, rfl⟩
    | _ => cases he

omit X s₀ in
theorem isShard_of_isSnapshot {k : ℕ} {t : Fin (2 ^ k)}
    {e : Event (Call A) (Relay k) (Option Bool) Fault} (he : isSnapshot t e) : isShard e := by
  cases e with
  | call m r => cases he
  | deliver m r =>
    cases m with
    | finalizeShard u => rfl
    | _ => cases he

theorem sent_of_not_isShard (i : ℕ) {e : Event (Call A) (Relay X.shardOrder) (Option Bool) Fault}
    (he : ¬ isShard e) (h : History A X.shardOrder) : sent X s₀ i (e :: h) = sent X s₀ i h := by
  cases e with
  | call m r => rfl
  | deliver m r =>
    cases m with
    | finalizeShard t => exact absurd rfl he
    | _ => rfl

/-- **What was sent.** If no shard has sent its array twice, what was sent is what the shards that
did send held at the start, and their timely votes. -/
theorem sent_eq (i : ℕ) {h : History A X.shardOrder} (hone : ∀ t, h.countP (isSnapshot t) ≤ 1) :
    sent X s₀ i h =
      ∑ t, if h.countP (isSnapshot t) = 0 then 0 else held X s₀ t i (timelyVotes X h) := by
  induction h with
  | nil => simp [sent]
  | cons e h ih =>
    have hle : ∀ t, h.countP (isSnapshot t) ≤ (e :: h).countP (isSnapshot t) :=
      fun t => (List.sublist_cons_self e h).countP_le
    have ih := ih fun t => (hle t).trans (hone t)
    by_cases he : isShard e
    · -- one shard sends: its summand appears, the others stay
      obtain ⟨u, r, rfl⟩ := exists_of_isShard he
      have hu : h.countP (isSnapshot u) = 0 := by
        have := hone u
        rw [List.countP_cons_of_pos (by simp [isSnapshot])] at this
        omega
      have hterm : ∀ t, (if (Event.deliver (.finalizeShard u) r :: h).countP (isSnapshot t) = 0
            then 0 else held X s₀ t i (timelyVotes X (.deliver (.finalizeShard u) r :: h))) =
          (if u = t then held X s₀ u i (acceptedVotes h) else 0) +
            if h.countP (isSnapshot t) = 0 then 0 else held X s₀ t i (timelyVotes X h) := by
        intro t
        rw [timelyVotes_other X rfl]
        by_cases ht : u = t
        · subst ht
          rw [List.countP_cons_of_pos (by simp [isSnapshot]), if_neg (Nat.succ_ne_zero _),
            if_pos rfl, if_pos hu, held, held, shardTally_timelyVotes X hu]
          rfl
        · rw [List.countP_cons_of_neg (by simp [isSnapshot, ht]), if_neg ht, Nat.zero_add]
      rw [Finset.sum_congr rfl fun t _ => hterm t, Finset.sum_add_distrib, ← ih]
      simp [sent]
    · have hcount : ∀ t, (e :: h).countP (isSnapshot t) = h.countP (isSnapshot t) :=
        fun t => List.countP_cons_of_neg fun ht => he (isShard_of_isSnapshot ht)
      rw [sent_of_not_isShard X s₀ i he, ih]
      refine Finset.sum_congr rfl fun t _ => ?_
      rw [hcount]
      by_cases ht : h.countP (isSnapshot t) = 0
      · rw [if_pos ht, if_pos ht]
      · rw [if_neg ht, if_neg ht, held, held, shardTally_timelyVotes_cons X ht]

theorem sent_le (i : ℕ) {h : History A X.shardOrder} (hone : ∀ t, h.countP (isSnapshot t) ≤ 1) :
    sent X s₀ i h ≤ ∑ t, held X s₀ t i (acceptedVotes h) := by
  rw [sent_eq X s₀ i hone]
  refine Finset.sum_le_sum fun t _ => ?_
  split
  · exact Nat.zero_le _
  · exact Nat.add_le_add_left (weigh_sublist _ _ (timelyVotes_sublist X h)) _

end Sent

/-! ### The accounting -/

/-- What an array in flight carries at an index. -/
def payload {k : ℕ} (i : ℕ) : Relay k → ℕ
  | .finalizeGather votes => votes.getD i 0
  | _ => 0

section Wave

variable {A : Type} {X : Chain A} {s₀ : State A X.shardOrder} {h : History A X.shardOrder}
  {e : Event (Call A) (Relay X.shardOrder) (Option Bool) Fault}

/-- A history with at most one finalization, whose sums fit in a `uint64`. -/
structure OneWave (X : Chain A) (s₀ : State A X.shardOrder) (h : History A X.shardOrder) :
    Prop where
  /-- At most one finalization was started. -/
  one : h.countP isFinalize ≤ 1
  /-- Whatever is added to the totals fits. -/
  fit : ∀ i, carriedOver X s₀ i + tally s₀.weight i (acceptedVotes h) < 2 ^ 64

theorem OneWave.sublist {h' : History A X.shardOrder} (hw : OneWave X s₀ h)
    (hs : h'.Sublist h) : OneWave X s₀ h' := by
  refine ⟨hs.countP_le.trans hw.one, fun i => Nat.lt_of_le_of_lt ?_ (hw.fit i)⟩
  exact Nat.add_le_add_left (weigh_sublist _ _ (hs.filterMap accepted?)) _

theorem OneWave.tail (hw : OneWave X s₀ (e :: h)) : OneWave X s₀ h :=
  hw.sublist (List.sublist_cons_self e h)

theorem OneWave.fit_held (hw : OneWave X s₀ h) (i : ℕ) :
    totalAt s₀.proposals i + ∑ t, held X s₀ t i (acceptedVotes h) < 2 ^ 64 := by
  rw [add_sum_held]
  exact hw.fit i

theorem OneWave.fit_shard (hw : OneWave X s₀ h) (t : Fin (2 ^ X.shardOrder)) (i : ℕ) :
    (s₀.votedWeights t).getD i 0 + shardTally X s₀.weight t i (acceptedVotes h) < 2 ^ 64 := by
  have hle : held X s₀ t i (acceptedVotes h) ≤ ∑ t, held X s₀ t i (acceptedVotes h) :=
    Finset.single_le_sum (f := fun t => held X s₀ t i (acceptedVotes h))
      (fun _ _ => Nat.zero_le _) (Finset.mem_univ t)
  have hlt := hw.fit_held i
  rw [held] at hle
  omega

/-- Every array gathered was gathered without a fault, and `shardGather_gather` returned true for
the one that made the ratio complete. -/
def GatherValues (X : Chain A) (h : History A X.shardOrder) : Prop :=
  ∀ h₂ h₁ votes r, h = h₂ ++ .deliver (.finalizeGather votes) r :: h₁ →
    r = .ok (some (decide ((h₁.countP isGather + 1) * shardShare X.shardOrder = 0x80000000)))

theorem GatherValues.cons_other (hv : GatherValues X h) (he : ¬ isGather e) :
    GatherValues X (e :: h) := by
  intro h₂ h₁ votes r heq
  cases h₂ with
  | nil =>
    rw [List.nil_append] at heq
    obtain ⟨rfl, rfl⟩ := List.cons.inj heq
    exact absurd rfl he
  | cons e' h₂ => exact hv h₂ h₁ votes r (List.cons.inj heq).2

theorem GatherValues.cons_gather (hv : GatherValues X h) {votes : List ℕ} {b : Bool}
    (hb : b = decide ((h.countP isGather + 1) * shardShare X.shardOrder = 0x80000000)) :
    GatherValues X (.deliver (.finalizeGather votes) (.ok (some b)) :: h) := by
  intro h₂ h₁ votes' r heq
  cases h₂ with
  | nil =>
    rw [List.nil_append] at heq
    obtain ⟨he, rfl⟩ := List.cons.inj heq
    cases he
    rw [hb]
  | cons e' h₂ => exact hv h₂ h₁ votes' r (List.cons.inj heq).2

/-- **The accounting of one finalization.** -/
structure Wave (X : Chain A) (s₀ : State A X.shardOrder) (h : History A X.shardOrder)
    (c : Config (State A X.shardOrder) (Relay X.shardOrder)) : Prop where
  /-- What was sent is in the totals or in flight. -/
  totals : ∀ i, totalAt c.state.proposals i + c.carried (payload i) =
    totalAt s₀.proposals i + sent X s₀ i h
  /-- The ratio counts what was gathered since the reset. -/
  ratio : h.countP isReset ≠ 0 →
    c.state.shardGatherRatio = h.countP isGather * shardShare X.shardOrder
  /-- Nothing was lost in gathering. -/
  values : GatherValues X h

/-- A step that touches neither totals nor ratio and moves no array keeps the accounting. -/
theorem Wave.frame {c : Config (State A X.shardOrder) (Relay X.shardOrder)}
    {s : State A X.shardOrder} {rest : Multiset (Relay X.shardOrder)} (hw : Wave X s₀ h c)
    (he : ¬ isGather e ∧ ¬ isReset e ∧ ¬ isShard e)
    (hps : ∀ i, totalAt s.proposals i = totalAt c.state.proposals i)
    (hratio : s.shardGatherRatio = c.state.shardGatherRatio)
    (hflight : ∀ i, (rest.map (payload i)).sum = c.carried (payload i)) :
    Wave X s₀ (e :: h) ⟨s, rest⟩ := by
  obtain ⟨hg, hrs, hsh⟩ := he
  refine ⟨fun i => ?_, fun hne => ?_, hw.values.cons_other hg⟩
  · rw [sent_of_not_isShard X s₀ i hsh, ← hw.totals i, ← hps i, ← hflight i]
    rfl
  · rw [List.countP_cons_of_neg hrs] at hne
    rw [List.countP_cons_of_neg hg, ← hw.ratio hne]
    exact hratio

variable [DecidableEq A] {c : Config (State A X.shardOrder) (Relay X.shardOrder)}
  {G : History A X.shardOrder → Config (State A X.shardOrder) (Relay X.shardOrder) →
    Event (Call A) (Relay X.shardOrder) (Option Bool) Fault → Prop}

/-- A shard is asked no more often than finalizations were started. -/
theorem snapshots_le_finalizes (hr : (machine X).Run G ⟨s₀, 0⟩ h c) (t : Fin (2 ^ X.shardOrder)) :
    h.countP (isSnapshot t) ≤ h.countP isFinalize := by
  have h1 := resets_add_inFlight hr
  have h2 := snapshots_add_inFlight hr t
  omega

/-- Every reset asks each shard at most once. -/
theorem shards_le_resets (hr : (machine X).Run G ⟨s₀, 0⟩ h c) :
    h.countP isShard ≤ 2 ^ X.shardOrder * h.countP isReset := by
  calc h.countP isShard = ∑ t, h.countP (isSnapshot t) := (sum_countP_isSnapshot h).symm
    _ ≤ ∑ _t : Fin (2 ^ X.shardOrder), h.countP isReset :=
        Finset.sum_le_sum fun t _ => by have := snapshots_add_inFlight hr t; omega
    _ = 2 ^ X.shardOrder * h.countP isReset := by simp

/-- While an array is in flight, the counter was reset and not every array is gathered. -/
theorem gathers_lt_of_inFlight {s : State A X.shardOrder} {votes : List ℕ}
    {rest : Multiset (Relay X.shardOrder)}
    (hr : (machine X).Run G ⟨s₀, 0⟩ h ⟨s, .finalizeGather votes ::ₘ rest⟩)
    (hone : h.countP isFinalize ≤ 1) :
    h.countP isReset ≠ 0 ∧ h.countP isGather < 2 ^ X.shardOrder := by
  have h1 := resets_add_inFlight hr
  have h2 := shards_le_resets hr
  have h3 := gathers_add_inFlight hr
  simp only [Config.carried_cons] at h3
  have hpos : h.countP isReset ≠ 0 := by
    intro h0
    rw [h0] at h2
    omega
  have hreset : h.countP isReset = 1 := by omega
  rw [hreset] at h2
  exact ⟨hpos, by omega⟩

omit [DecidableEq A] in
/-- The accounting after a call. -/
theorem Wave.call (hw : Wave X s₀ h c) {m : Call A} {v : Option Bool} {s : State A X.shardOrder}
    {out : List (Relay X.shardOrder)} (hout : ∀ i, (out.map (payload i)).sum = 0)
    (hps : s.proposals = c.state.proposals)
    (hratio : s.shardGatherRatio = c.state.shardGatherRatio) :
    Wave X s₀ (.call m (.ok v) :: h) ⟨s, c.inFlight + out⟩ := by
  refine hw.frame (by simp [isGather, isReset, isShard]) (fun i => by rw [hps]) hratio fun i => ?_
  rw [Multiset.map_add, Multiset.sum_add, Multiset.map_coe, Multiset.sum_coe, hout i]
  rfl

/-- The accounting after the reset. It is the first, so nothing has been gathered before it. -/
theorem Wave.reset {s : State A X.shardOrder} {rest : Multiset (Relay X.shardOrder)}
    (hr : (machine X).Run G ⟨s₀, 0⟩ h ⟨s, .finalizeGlobal ::ₘ rest⟩) (hone : OneWave X s₀ h)
    (hw : Wave X s₀ h ⟨s, .finalizeGlobal ::ₘ rest⟩) :
    Wave X s₀ (.deliver .finalizeGlobal (.ok none) :: h)
      ⟨{ s with shardGatherRatio := 0 }, rest +
        ((List.finRange (2 ^ X.shardOrder)).map .finalizeShard : List (Relay X.shardOrder))⟩ := by
  have hreset : h.countP isReset = 0 := by
    have h1 := resets_add_inFlight hr
    have h2 : h.countP isFinalize ≤ 1 := hone.one
    simp only [Config.carried_cons] at h1
    omega
  have hgather : h.countP isGather = 0 := by
    have h1 := shards_le_resets hr
    have h2 := gathers_add_inFlight hr
    rw [hreset] at h1
    omega
  refine ⟨fun i => ?_, fun _ => ?_, hw.values.cons_other (by simp [isGather])⟩
  · rw [sent_of_not_isShard X s₀ i (by simp [isShard]), ← hw.totals i]
    simp [Config.carried, payload, Function.comp_def]
  · rw [List.countP_cons_of_neg (by simp [isGather]), hgather, Nat.zero_mul]

/-- The accounting after a shard has sent its array. -/
theorem Wave.snapshot {s : State A X.shardOrder} {t : Fin (2 ^ X.shardOrder)}
    {rest : Multiset (Relay X.shardOrder)}
    (hr : (machine X).Run G ⟨s₀, 0⟩ h ⟨s, .finalizeShard t ::ₘ rest⟩)
    (h₀ : InRange (⟨s₀, 0⟩ : Config _ (Relay X.shardOrder))) (hone : OneWave X s₀ h)
    (hw : Wave X s₀ h ⟨s, .finalizeShard t ::ₘ rest⟩) :
    Wave X s₀ (.deliver (.finalizeShard t) (.ok none) :: h)
      ⟨s, rest + ([.finalizeGather (s.votedWeights t)] : List (Relay X.shardOrder))⟩ := by
  refine ⟨fun i => ?_, fun hne => ?_, hw.values.cons_other (by simp [isGather])⟩
  · have htot := hw.totals i
    have hheld : (s.votedWeights t).getD i 0 = held X s₀ t i (acceptedVotes h) :=
      votedWeights_of_run hr h₀ hone.fit_shard t i
    simp only [Config.carried_cons, payload] at htot
    simp only [Config.carried_add, sent, List.map_cons, List.map_nil, List.sum_cons, List.sum_nil,
      payload, hheld]
    omega
  · rw [List.countP_cons_of_neg (by simp [isReset])] at hne
    rw [List.countP_cons_of_neg (by simp [isGather])]
    exact hw.ratio hne

/-- Gathering an array in flight succeeds, adds it to the totals and one share to the ratio. -/
theorem Wave.exists_gather {s : State A X.shardOrder} {votes : List ℕ}
    {rest : Multiset (Relay X.shardOrder)}
    (hr : (machine X).Run G ⟨s₀, 0⟩ h ⟨s, .finalizeGather votes ::ₘ rest⟩)
    (h₀ : InRange (⟨s₀, 0⟩ : Config _ (Relay X.shardOrder))) (hone : OneWave X s₀ h)
    (hw : Wave X s₀ h ⟨s, .finalizeGather votes ::ₘ rest⟩) :
    (∃ qs, addShardVotes X.overflow s.proposals votes = .ok qs ∧
      ∀ i, totalAt qs i = totalAt s.proposals i + votes.getD i 0) ∧
    addU X.overflow 32 s.shardGatherRatio (shardShare X.shardOrder) =
      .ok ((h.countP isGather + 1) * shardShare X.shardOrder) := by
  obtain ⟨hreset, hlt⟩ := gathers_lt_of_inFlight hr hone.one
  constructor
  · refine exists_addShardVotes _ ((inRange_of_run hr h₀).gather votes (by simp)) fun i => ?_
    have htot := hw.totals i
    have hsent := sent_le X s₀ i fun t => (snapshots_le_finalizes hr t).trans hone.one
    have hfit := hone.fit_held i
    simp only [Config.carried_cons, payload] at htot
    omega
  · have hratio : s.shardGatherRatio = h.countP isGather * shardShare X.shardOrder :=
      hw.ratio hreset
    have hle := mul_shardShare_le (Nat.succ_le_of_lt hlt)
    rw [Nat.succ_eq_add_one, Nat.add_mul, Nat.one_mul] at hle
    rw [hratio, addU_of_lt (by omega), Nat.add_mul, Nat.one_mul]

/-- Gathering does not fail. -/
theorem Wave.gather_ne_error {s : State A X.shardOrder} {votes : List ℕ}
    {rest : Multiset (Relay X.shardOrder)} {f : Fault}
    (hr : (machine X).Run G ⟨s₀, 0⟩ h ⟨s, .finalizeGather votes ::ₘ rest⟩)
    (h₀ : InRange (⟨s₀, 0⟩ : Config _ (Relay X.shardOrder))) (hone : OneWave X s₀ h)
    (hw : Wave X s₀ h ⟨s, .finalizeGather votes ::ₘ rest⟩) :
    (machine X).relay (.finalizeGather votes) s ≠ .error f := by
  obtain ⟨⟨qs, hqs, -⟩, hratio⟩ := hw.exists_gather hr h₀ hone
  obtain ⟨eff, heff⟩ := exists_finalizeGather hqs hratio
  intro hk
  cases hk.symm.trans heff

omit [DecidableEq A] in
/-- The accounting after an array is gathered. -/
theorem Wave.gather {s s' : State A X.shardOrder} {votes : List ℕ} {qs : List Proposal} {b : Bool}
    {rest : Multiset (Relay X.shardOrder)} (hw : Wave X s₀ h ⟨s, .finalizeGather votes ::ₘ rest⟩)
    (hqs : ∀ i, totalAt qs i = totalAt s.proposals i + votes.getD i 0) (hps : s'.proposals = qs)
    (hratio : s'.shardGatherRatio = (h.countP isGather + 1) * shardShare X.shardOrder)
    (hb : b = decide ((h.countP isGather + 1) * shardShare X.shardOrder = 0x80000000)) :
    Wave X s₀ (.deliver (.finalizeGather votes) (.ok (some b)) :: h) ⟨s', rest⟩ := by
  refine ⟨fun i => ?_, fun _ => ?_, hw.values.cons_gather hb⟩
  · have htot := hw.totals i
    simp only [Config.carried_cons, payload] at htot
    rw [sent_of_not_isShard X s₀ i (by simp [isShard]), ← htot]
    simp only [Config.carried, hps, hqs i]
    omega
  · rw [List.countP_cons_of_pos rfl]
    exact hratio

/-- **One finalization is accounted for,** along every run with at most one, whatever votes and
other calls it is interleaved with. -/
theorem wave_of_run (hr : (machine X).Run G ⟨s₀, 0⟩ h c)
    (h₀ : InRange (⟨s₀, 0⟩ : Config _ (Relay X.shardOrder))) (hone : OneWave X s₀ h) :
    Wave X s₀ h c := by
  refine hr.invariant (I := fun h c => OneWave X s₀ h → Wave X s₀ h c) ?_ ?_ ?_ ?_ ?_ hone
  · intro _
    exact ⟨fun i => rfl, fun hne => absurd rfl hne, fun h₂ h₁ votes r heq => by simp at heq⟩
  · intro h c m eff _ ih _ hk hone
    have ih := ih hone.tail
    cases called_of_ok hk with
    | init => exact ih.call (fun _ => rfl) rfl rfl
    | accept => exact ih.call (fun _ => rfl) rfl rfl
    | reject => exact ih.call (fun _ => rfl) rfl rfl
    | finalize => exact ih.call (fun _ => rfl) rfl rfl
  · intro h c m f _ ih _ _ hone
    exact (ih hone.tail).frame (by simp [isGather, isReset, isShard]) (fun i => rfl) rfl
      fun i => rfl
  · intro h s m rest eff hr ih _ hk hone
    have ih := ih hone.tail
    cases delivered_of_ok hk with
    | initGlobal hn =>
      refine ih.frame (by simp [isGather, isReset, isShard]) (totalAt_append_zero _ _) rfl
        fun i => ?_
      simp [Config.carried, payload]
    | finalizeGlobal => exact ih.reset hr hone.tail
    | finalizeShard => exact ih.snapshot hr h₀ hone.tail
    | gather hps hadd hmore =>
      obtain ⟨⟨qs, hqs, htot⟩, hratio⟩ := ih.exists_gather hr h₀ hone.tail
      cases hps.symm.trans hqs
      cases hadd.symm.trans hratio
      rw [Multiset.coe_nil, add_zero]
      exact ih.gather htot rfl rfl (decide_eq_false hmore).symm
    | complete hps hadd =>
      obtain ⟨⟨qs, hqs, htot⟩, hratio⟩ := ih.exists_gather hr h₀ hone.tail
      cases hps.symm.trans hqs
      have hcomplete := Except.ok.inj (hadd.symm.trans hratio)
      rw [Multiset.coe_nil, add_zero]
      exact ih.gather htot rfl hcomplete (decide_eq_true hcomplete.symm).symm
  · intro h s m rest f hr ih _ hk hone
    have ih := ih hone.tail
    cases m with
    | initGlobal names =>
      refine ih.frame (by simp [isGather, isReset, isShard]) (fun i => rfl) rfl fun i => ?_
      simp [Config.carried, payload]
    | finalizeGlobal => cases hk
    | finalizeShard t => cases hk
    | finalizeGather votes =>
      exact absurd hk (ih.gather_ne_error hr h₀ hone.tail)

/-! ### With nothing left in flight -/

/-- With nothing in flight, every finalization started has reset the counter, asked every shard
and gathered every array. -/
theorem counts_of_quiescent (hr : (machine X).Run G ⟨s₀, 0⟩ h c) (hq : c.inFlight = 0) :
    (∀ t, h.countP (isSnapshot t) = h.countP isFinalize) ∧
      h.countP isGather = 2 ^ X.shardOrder * h.countP isFinalize := by
  have h1 := resets_add_inFlight hr
  have h3 := gathers_add_inFlight hr
  rw [Config.carried_of_quiescent _ hq, Nat.zero_add] at h1 h3
  have h2 : ∀ t, h.countP (isSnapshot t) = h.countP isFinalize := by
    intro t
    have h2 := snapshots_add_inFlight hr t
    rw [Config.carried_of_quiescent _ hq, Nat.zero_add] at h2
    rw [h2, h1]
  refine ⟨h2, ?_⟩
  rw [h3, ← sum_countP_isSnapshot]
  simp [h2]

/-- **The totals after a finalization.** With one finalization and nothing left in flight, the
total at every index is what was carried over and the weight of the timely votes for it. -/
theorem totals_of_quiescent (hr : (machine X).Run G ⟨s₀, 0⟩ h c)
    (h₀ : InRange (⟨s₀, 0⟩ : Config _ (Relay X.shardOrder))) (hone : OneWave X s₀ h)
    (hfin : h.countP isFinalize = 1) (hq : c.inFlight = 0) (i : ℕ) :
    totalAt c.state.proposals i =
      carriedOver X s₀ i + tally s₀.weight i (timelyVotes X h) := by
  have hsnap := (counts_of_quiescent hr hq).1
  have htot := (wave_of_run hr h₀ hone).totals i
  rw [Config.carried_of_quiescent _ hq, Nat.add_zero,
    sent_eq X s₀ i fun t => (snapshots_le_finalizes hr t).trans hone.one] at htot
  rw [htot, ← add_sum_held]
  congr 1
  exact Finset.sum_congr rfl fun t _ => if_neg (by rw [hsnap, hfin]; exact Nat.one_ne_zero)

end Wave

end Ballot

end Preda

end RelayContracts
