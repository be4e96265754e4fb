import RelayContracts.FixedWidth
import Mathlib.Algebra.GroupWithZero.Nat
import Mathlib.Algebra.BigOperators.Group.List.Basic

/-!
# Accounts to test with

The universe of accounts of the end-to-end tests hands out pairs of accounts, and a generator of
transfers keeps the balances that the accounts should have after each transfer.

With the `Limited` style an account may be picked so many times, and is taken off the list of
`remaining` ones then. Removing keeps the list in the order of the indices, which is why the later
of two indices into it is the larger account; the two mutable references depend on that.

A generator computes with `u64`. What an overflow does depends on how the code was compiled, and is
the parameter `Overflow`. `pick_slice_idxs` is not part of the source: a `Sampler` is what it
returns for a number of accounts.

## Main definitions

* `pickLimited`, `pickPair`, `AccountPairGen.pick`, `P2PTransferGen.apply` — the functions of the
  source

## Main results

* `limited_picks` — picking pairs fails only when all but one account are used up
* `transfers_conserve` — no transfer overflows, and what accounts lose is the gas
-/

namespace RelayContracts

namespace Aptos

namespace AccountUniverse

/-! ### Picking -/

/-- `AccountPickStyle`. -/
inductive AccountPickStyle where
  /-- An account may be picked as many times as possible. -/
  | unlimited
  /-- An account may only be picked these many times. -/
  | limited (limit : ℕ)

/-- `AccountPicker`. -/
inductive AccountPicker where
  /-- The number of accounts. -/
  | unlimited (numAccounts : ℕ)
  /-- The accounts that remain, with the times that remain. -/
  | limited (remaining : List (ℕ × ℕ))

/-- `AccountPicker::new`. -/
def AccountPicker.new (style : AccountPickStyle) (numAccounts : ℕ) : AccountPicker :=
  match style with
  | .unlimited => .unlimited numAccounts
  | .limited limit => .limited ((List.range numAccounts).map fun idx => (idx, limit))

/-- What `pick_slice_idxs` returns for two indices, by the length of the slice. -/
abbrev Sampler := ℕ → List ℕ

/-- It returns two indices into the slice, in order, if there are so many. -/
def Sampler.Valid (s : Sampler) : Prop :=
  ∀ n, (2 ≤ n → ∃ i j, s n = [i, j] ∧ i < j ∧ j < n) ∧ (n < 2 → (s n).length < 2)

/-- `pick_pair_impl`. -/
def pickPairImpl (s : Sampler) (max : ℕ) : Except Fault (ℕ × ℕ) :=
  match s max with
  | [i, j] => if i < j then .ok (i, j) else .error .assertion
  | _ => .error .assertion

/-- `pick_limited`. -/
def pickLimited (p : Overflow) (remaining : List (ℕ × ℕ)) (remainingIdx : ℕ) :
    Except Fault (ℕ × List (ℕ × ℕ)) :=
  match remaining[remainingIdx]? with
  | none => .error .outOfRange
  | some (accountIdx, times) => do
    let timesRemaining ← subUWith p 64 times 1
    if timesRemaining = 0 then .ok (accountIdx, remaining.eraseIdx remainingIdx)
    else .ok (accountIdx, remaining.set remainingIdx (accountIdx, timesRemaining))

/-- `pick_pair`. The later index is used first. -/
def pickPair (p : Overflow) (s : Sampler) : AccountPicker → Except Fault ((ℕ × ℕ) × AccountPicker)
  | .unlimited numAccounts => do
    let pair ← pickPairImpl s numAccounts
    return (pair, .unlimited numAccounts)
  | .limited remaining => do
    let (remainingIdx₁, remainingIdx₂) ← pickPairImpl s remaining.length
    let (accountIdx₂, remaining) ← pickLimited p remaining remainingIdx₂
    let (accountIdx₁, remaining) ← pickLimited p remaining remainingIdx₁
    return ((accountIdx₁, accountIdx₂), .limited remaining)

/-- Pairs picked one after another. -/
def pickPairs (p : Overflow) : List Sampler → AccountPicker →
    Except Fault (List (ℕ × ℕ) × AccountPicker)
  | [], picker => .ok ([], picker)
  | s :: ss, picker => do
    let (pair, picker) ← pickPair p s picker
    let (pairs, picker) ← pickPairs p ss picker
    return (pair :: pairs, picker)

/-! ### What remains -/

/-- The times that remain for an account. -/
def timesOf (remaining : List (ℕ × ℕ)) (x : ℕ) : ℕ :=
  (remaining.map fun e => if e.1 = x then e.2 else 0).sum

/-- The list of remaining accounts is in order, and each of them remains. -/
structure Ordered (n : ℕ) (remaining : List (ℕ × ℕ)) : Prop where
  /-- In the order of the indices. -/
  sorted : remaining.Pairwise fun e e' => e.1 < e'.1
  /-- Each may still be picked. -/
  pos : ∀ e ∈ remaining, 0 < e.2
  /-- Each is an account. -/
  lt : ∀ e ∈ remaining, e.1 < n

/-- The list after the account between two parts of it was picked. -/
def afterPick (l₁ : List (ℕ × ℕ)) (a t : ℕ) (l₂ : List (ℕ × ℕ)) : List (ℕ × ℕ) :=
  if t = 1 then l₁ ++ l₂ else l₁ ++ (a, t - 1) :: l₂

theorem pickLimited_eq (p : Overflow) (l₁ l₂ : List (ℕ × ℕ)) {a t : ℕ} (ht : 0 < t) :
    pickLimited p (l₁ ++ (a, t) :: l₂) l₁.length = .ok (a, afterPick l₁ a t l₂) := by
  rw [pickLimited, List.getElem?_append_right (Nat.le_refl _), Nat.sub_self]
  simp only [List.getElem?_cons_zero, subUWith_of_le ht, ok_bind, afterPick]
  by_cases h1 : t = 1
  · simp [h1, List.eraseIdx_append_of_length_le]
  · rw [if_neg (by omega), if_neg h1]
    simp

theorem timesOf_afterPick (l₁ l₂ : List (ℕ × ℕ)) {a t : ℕ} (ht : 0 < t) (x : ℕ) :
    timesOf (afterPick l₁ a t l₂) x + [a].count x = timesOf (l₁ ++ (a, t) :: l₂) x := by
  rw [afterPick]
  by_cases hx : a = x
  · split
    · simp [timesOf, hx]
      omega
    · simp [timesOf, hx]
      omega
  · split
    · simp [timesOf, hx]
    · simp [timesOf, hx]

theorem Ordered.afterPick {n : ℕ} {l₁ l₂ : List (ℕ × ℕ)} {a t : ℕ}
    (h : Ordered n (l₁ ++ (a, t) :: l₂)) : Ordered n (afterPick l₁ a t l₂) := by
  have hsub : (l₁ ++ l₂).Sublist (l₁ ++ (a, t) :: l₂) :=
    (List.Sublist.refl l₁).append (List.sublist_cons_self _ l₂)
  rw [AccountUniverse.afterPick]
  split
  · exact ⟨h.sorted.sublist hsub, fun e he => h.pos e (hsub.subset he),
      fun e he => h.lt e (hsub.subset he)⟩
  · next ht =>
    have hpos : 0 < t := h.pos (a, t) (by simp)
    -- an entry is one of before, or the picked account, which may be picked again
    have hmem : ∀ e ∈ l₁ ++ (a, t - 1) :: l₂, e = (a, t - 1) ∨ e ∈ l₁ ++ (a, t) :: l₂ := by
      intro e he
      simp only [List.mem_append, List.mem_cons] at he ⊢
      tauto
    refine ⟨?_, fun e he => ?_, fun e he => ?_⟩
    · simpa [List.pairwise_append] using h.sorted
    · rcases hmem e he with rfl | he
      · change 0 < t - 1
        omega
      · exact h.pos e he
    · rcases hmem e he with rfl | he
      · exact h.lt (a, t) (by simp)
      · exact h.lt e he

/-- What picking the account at an index of the list does. -/
theorem exists_pickLimited {n : ℕ} {remaining : List (ℕ × ℕ)} (h : Ordered n remaining)
    (p : Overflow) {i : ℕ} (hi : i < remaining.length) :
    ∃ remaining', pickLimited p remaining i = .ok (remaining[i].1, remaining') ∧
      Ordered n remaining' ∧
      (∀ x, timesOf remaining' x + [remaining[i].1].count x = timesOf remaining x) ∧
      ∀ k < i, remaining'[k]? = remaining[k]? := by
  have hsplit : remaining =
      remaining.take i ++ (remaining[i].1, remaining[i].2) :: remaining.drop (i + 1) := by
    change remaining = remaining.take i ++ remaining[i] :: remaining.drop (i + 1)
    rw [← List.drop_eq_getElem_cons hi, List.take_append_drop]
  have hlen : (remaining.take i).length = i := List.length_take_of_le (Nat.le_of_lt hi)
  have hpos : 0 < remaining[i].2 := h.pos _ (List.getElem_mem hi)
  refine ⟨afterPick (remaining.take i) remaining[i].1 remaining[i].2 (remaining.drop (i + 1)),
    ?_, ?_, fun x => ?_, fun k hk => ?_⟩
  · have hpick := pickLimited_eq p (remaining.take i) (remaining.drop (i + 1)) (a := remaining[i].1)
      hpos
    rwa [← hsplit, hlen] at hpick
  · exact Ordered.afterPick (hsplit ▸ h)
  · rw [timesOf_afterPick _ _ hpos, ← hsplit]
  · have hfront : ∀ l, (remaining.take i ++ l)[k]? = remaining[k]? := by
      intro l
      rw [List.getElem?_append_left (by omega), List.getElem?_take_of_lt hk]
    rw [afterPick]
    split
    · exact hfront _
    · exact hfront _

/-- The assertions of `pick_pair_impl` fail if there are fewer than two accounts. -/
theorem pickPairImpl_cases {s : Sampler} (hs : s.Valid) (n : ℕ) :
    (n < 2 ∧ pickPairImpl s n = .error .assertion) ∨
      ∃ i j, pickPairImpl s n = .ok (i, j) ∧ i < j ∧ j < n := by
  by_cases hn : n < 2
  · refine .inl ⟨hn, ?_⟩
    have hshort := (hs n).2 hn
    rw [pickPairImpl]
    split
    · next heq =>
      rw [heq] at hshort
      simp at hshort
    · rfl
  · obtain ⟨i, j, hsample, hij, hj⟩ := (hs n).1 (Nat.not_lt.mp hn)
    exact .inr ⟨i, j, by simp [pickPairImpl, hsample, hij], hij, hj⟩

/-- Picking a pair: it fails if fewer than two accounts remain, and otherwise gives two of them in
order. -/
theorem pickPair_limited {n : ℕ} {remaining : List (ℕ × ℕ)} (h : Ordered n remaining)
    (p : Overflow) {s : Sampler} (hs : s.Valid) :
    (remaining.length < 2 ∧ pickPair p s (.limited remaining) = .error .assertion) ∨
      ∃ a b remaining', pickPair p s (.limited remaining) = .ok ((a, b), .limited remaining') ∧
        a < b ∧ b < n ∧ Ordered n remaining' ∧
        ∀ x, timesOf remaining' x + [a, b].count x = timesOf remaining x := by
  rcases pickPairImpl_cases hs remaining.length with ⟨hlen, himpl⟩ | ⟨i, j, himpl, hij, hj⟩
  · refine .inl ⟨hlen, ?_⟩
    rw [pickPair, himpl]
    rfl
  · right
    obtain ⟨rem₁, hpick₁, hord₁, htimes₁, hfront⟩ := exists_pickLimited h p hj
    have hi : i < remaining.length := Nat.lt_trans hij hj
    -- the earlier index still finds the same account
    have hget : rem₁[i]? = some remaining[i] := by rw [hfront i hij, List.getElem?_eq_getElem hi]
    obtain ⟨hi₁, hget⟩ := List.getElem?_eq_some_iff.mp hget
    obtain ⟨rem₂, hpick₂, hord₂, htimes₂, -⟩ := exists_pickLimited hord₁ p hi₁
    rw [hget] at hpick₂ htimes₂
    refine ⟨remaining[i].1, remaining[j].1, rem₂, ?_, ?_, ?_, hord₂, fun x => ?_⟩
    · simp only [pickPair, himpl, hpick₁, hpick₂, ok_bind]
      rfl
    · exact List.pairwise_iff_getElem.mp h.sorted i j hi hj hij
    · exact h.lt _ (List.getElem_mem hj)
    · rw [← htimes₁ x, ← htimes₂ x, Nat.add_assoc, ← List.count_append]
      rfl

/-! ### Runs of the picker -/

/-- The accounts of pairs. -/
def accountsOf (pairs : List (ℕ × ℕ)) : List ℕ := pairs.flatMap fun q => [q.1, q.2]

/-- Pairs that were picked, and what remains after them. -/
structure Picked (n : ℕ) (remaining : List (ℕ × ℕ)) (pairs : List (ℕ × ℕ))
    (remaining' : List (ℕ × ℕ)) : Prop where
  /-- A pair is of two accounts, the smaller one first. -/
  pair : ∀ q ∈ pairs, q.1 < q.2 ∧ q.2 < n
  /-- What remains is in order. -/
  ordered : Ordered n remaining'
  /-- Each pick takes one of the times that remain. -/
  times : ∀ x, timesOf remaining' x + (accountsOf pairs).count x = timesOf remaining x

theorem pickPairs_limited {n : ℕ} {remaining : List (ℕ × ℕ)} (h : Ordered n remaining)
    (p : Overflow) {ss : List Sampler} (hss : ∀ s ∈ ss, s.Valid) :
    (∃ pairs remaining', pickPairs p ss (.limited remaining) = .ok (pairs, .limited remaining') ∧
        pairs.length = ss.length ∧ Picked n remaining pairs remaining') ∨
      pickPairs p ss (.limited remaining) = .error .assertion ∧
        ∃ k < ss.length, ∃ pairs remaining',
          pickPairs p (ss.take k) (.limited remaining) = .ok (pairs, .limited remaining') ∧
          remaining'.length < 2 ∧ Picked n remaining pairs remaining' := by
  induction ss generalizing remaining with
  | nil => exact .inl ⟨[], remaining, rfl, rfl, by simp, h, fun x => rfl⟩
  | cons s ss ih =>
    obtain ⟨hs, hss⟩ := List.forall_mem_cons.mp hss
    rcases pickPair_limited h p hs with ⟨hlen, hpick⟩ | ⟨a, b, rem₁, hpick, hab, hb, hord, htimes⟩
    · right
      refine ⟨by rw [pickPairs, hpick]; rfl, 0, by simp, [], remaining, rfl, hlen, ?_⟩
      exact ⟨by simp, h, fun x => rfl⟩
    · have hcons : ∀ {pairs rem'}, Picked n rem₁ pairs rem' →
          Picked n remaining ((a, b) :: pairs) rem' := fun {pairs rem'} hpicked =>
        ⟨List.forall_mem_cons.mpr ⟨⟨hab, hb⟩, hpicked.pair⟩, hpicked.ordered, fun x => by
          have hrest := hpicked.times x
          have hfirst := htimes x
          have hcount : (accountsOf ((a, b) :: pairs)).count x =
              [a, b].count x + (accountsOf pairs).count x := by
            rw [← List.count_append]
            rfl
          omega⟩
      rcases ih hord hss with ⟨pairs, rem', hrun, hlen, hpicked⟩ |
          ⟨hrun, k, hk, pairs, rem', htake, hlen, hpicked⟩
      · left
        refine ⟨(a, b) :: pairs, rem', ?_, by simp [hlen], hcons hpicked⟩
        simp only [pickPairs, hpick, hrun, ok_bind]
        rfl
      · right
        refine ⟨?_, k + 1, by simpa using hk, (a, b) :: pairs, rem', ?_, hlen, hcons hpicked⟩
        · simp only [pickPairs, hpick, hrun, ok_bind]
          rfl
        · simp only [List.take_succ_cons, pickPairs, hpick, htake, ok_bind]
          rfl

theorem ordered_new (n : ℕ) {limit : ℕ} (hlimit : 0 < limit) :
    Ordered n ((List.range n).map fun idx => (idx, limit)) := by
  refine ⟨List.pairwise_map.mpr List.pairwise_lt_range, fun e he => ?_, fun e he => ?_⟩
  · obtain ⟨idx, -, rfl⟩ := List.mem_map.mp he
    exact hlimit
  · obtain ⟨idx, hidx, rfl⟩ := List.mem_map.mp he
    exact List.mem_range.mp hidx

theorem timesOf_new (n limit x : ℕ) :
    timesOf ((List.range n).map fun idx => (idx, limit)) x = if x < n then limit else 0 := by
  induction n with
  | zero => rfl
  | succ n ih =>
    rw [List.range_succ, List.map_append, timesOf, List.map_append, List.sum_append]
    change timesOf _ x + _ = _
    rw [ih]
    by_cases hx : n = x
    · simp [hx]
    · have hiff : x < n + 1 ↔ x < n := by omega
      simp [hx, hiff]

/-- With fewer than two accounts left, all but one have no times left. -/
theorem timesOf_of_length_lt {remaining : List (ℕ × ℕ)} (h : remaining.length < 2) :
    ∃ y, ∀ x ≠ y, timesOf remaining x = 0 := by
  match remaining with
  | [] => exact ⟨0, fun x _ => rfl⟩
  | [e] => exact ⟨e.1, fun x hx => by simp [timesOf, hx.symm]⟩

/-- **Picking pairs under a limit.** Each pair is of two different accounts, the smaller one first,
and no account is picked more often than the limit. Picking fails only when all accounts but one
have been picked as often as the limit allows. -/
theorem limited_picks {limit : ℕ} (hlimit : 0 < limit) (p : Overflow) (n : ℕ) {ss : List Sampler}
    (hss : ∀ s ∈ ss, s.Valid) :
    (∃ pairs picker, pickPairs p ss (.new (.limited limit) n) = .ok (pairs, picker) ∧
        pairs.length = ss.length ∧ (∀ q ∈ pairs, q.1 < q.2 ∧ q.2 < n) ∧
        ∀ x, (accountsOf pairs).count x ≤ limit) ∨
      pickPairs p ss (.new (.limited limit) n) = .error .assertion ∧
        ∃ k < ss.length, ∃ pairs picker,
          pickPairs p (ss.take k) (.new (.limited limit) n) = .ok (pairs, picker) ∧
          ∃ y, ∀ x < n, x ≠ y → (accountsOf pairs).count x = limit := by
  rcases pickPairs_limited (ordered_new n hlimit) p hss with ⟨pairs, rem', hrun, hlen, hpicked⟩ |
      ⟨hrun, k, hk, pairs, rem', htake, hlen, hpicked⟩
  · refine .inl ⟨pairs, .limited rem', hrun, hlen, hpicked.pair, fun x => ?_⟩
    have htimes := hpicked.times x
    rw [timesOf_new] at htimes
    split at htimes
    · omega
    · omega
  · refine .inr ⟨hrun, k, hk, pairs, .limited rem', htake, ?_⟩
    obtain ⟨y, hy⟩ := timesOf_of_length_lt hlen
    refine ⟨y, fun x hx hne => ?_⟩
    have htimes := hpicked.times x
    rwa [timesOf_new, if_pos hx, hy x hne, Nat.zero_add] at htimes

/-- The first two accounts, if there are two. -/
def firstTwo : Sampler := fun n => if 2 ≤ n then [0, 1] else []

theorem valid_firstTwo : firstTwo.Valid := by
  intro n
  by_cases hn : 2 ≤ n
  · exact ⟨fun _ => ⟨0, 1, if_pos hn, Nat.zero_lt_one, hn⟩, fun hlt => absurd hn (by omega)⟩
  · exact ⟨fun h => absurd h hn, fun _ => by simp [firstTwo, hn]⟩

theorem limited_picks_firstTwo :
    (∃ pairs picker, pickPairs .trap [firstTwo, firstTwo] (.new (.limited 1) 3) =
          .ok (pairs, picker) ∧
        pairs.length = 2 ∧ (∀ q ∈ pairs, q.1 < q.2 ∧ q.2 < 3) ∧
        ∀ x, (accountsOf pairs).count x ≤ 1) ∨
      pickPairs .trap [firstTwo, firstTwo] (.new (.limited 1) 3) = .error .assertion ∧
        ∃ k < 2, ∃ pairs picker,
          pickPairs .trap ([firstTwo, firstTwo].take k) (.new (.limited 1) 3) =
            .ok (pairs, picker) ∧
          ∃ y, ∀ x < 3, x ≠ y → (accountsOf pairs).count x = 1 :=
  limited_picks Nat.zero_lt_one .trap 3 (by simp [valid_firstTwo])

/-! ### Transfers -/

/-- `AccountCurrent`, as far as a transfer reads or changes it. -/
structure AccountCurrent where
  /-- `balance`. -/
  balance : ℕ
  /-- `sequence_number`. -/
  sequenceNumber : ℕ
  /-- `sent_events_count`. -/
  sentEventsCount : ℕ
  /-- `received_events_count`. -/
  receivedEventsCount : ℕ

/-- `AccountUniverse`. -/
structure Universe where
  /-- `accounts`. -/
  accounts : List AccountCurrent
  /-- `picker`. -/
  picker : AccountPicker

/-- `AccountPairGen`. -/
structure AccountPairGen where
  /-- `pair`. -/
  pair : Sampler
  /-- `reverse`. -/
  reverse : Bool

/-- `P2PTransferGen`. -/
structure P2PTransferGen where
  /-- `sender_receiver`. -/
  senderReceiver : AccountPairGen
  /-- `amount`. -/
  amount : ℕ

/-- What transfers cost. -/
structure GasCosts where
  /-- `PEER_TO_PEER`. -/
  peerToPeer : ℕ
  /-- `PEER_TO_PEER_TOO_LOW`. -/
  peerToPeerTooLow : ℕ

/-- `TransactionStatus`, as far as a transfer has it. -/
inductive TransactionStatus where
  /-- `Keep(Success)`. -/
  | success
  /-- `Keep(MoveAbort)`, in a core module and with a code. -/
  | moveAbort (moduleName : String) (code : ℕ)
  /-- `Discard(INSUFFICIENT_BALANCE_FOR_TRANSACTION_FEE)`. -/
  | insufficientBalanceForTransactionFee
  deriving DecidableEq, Repr

/-- Whether a transaction is kept. -/
def TransactionStatus.isKept : TransactionStatus → Bool
  | .success => true
  | .moveAbort _ _ => true
  | .insufficientBalanceForTransactionFee => false

/-- What a generator returns: the transaction, and what is expected of it. -/
structure Generated where
  /-- The index of the sender. -/
  sender : ℕ
  /-- The index of the receiver. -/
  receiver : ℕ
  /-- The sequence number of the transaction. -/
  sequenceNumber : ℕ
  /-- The expected status. -/
  status : TransactionStatus
  /-- The gas that should be used. -/
  gasUsed : ℕ

/-- `AccountPairGen::pick`: the indices of the first and of the second account. -/
def AccountPairGen.pick (p : Overflow) (gen : AccountPairGen) (u : Universe) :
    Except Fault ((ℕ × ℕ) × Universe) := do
  let ((lowIdx, highIdx), picker) ← pickPair p gen.pair u.picker
  -- `split_at_mut`, and the index into the tail
  if u.accounts.length < lowIdx + 1 then .error .outOfRange
  else do
    let apart ← subUWith p 64 highIdx lowIdx
    let tailIdx ← subUWith p 64 apart 1
    if u.accounts.length - (lowIdx + 1) ≤ tailIdx then .error .outOfRange
    else
      return (if gen.reverse then (highIdx, lowIdx) else (lowIdx, highIdx), { u with picker })

/-- The unit gas price of the transactions. -/
def gasUnitPrice : ℕ := 100

/-- What `P2PTransferGen::apply` makes of sender and receiver. -/
def settle (p : Overflow) (costs : GasCosts) (amount : ℕ) (sender receiver : AccountCurrent) :
    Except Fault ((AccountCurrent × AccountCurrent) × TransactionStatus × ℕ) := do
  let enoughToTransfer := decide (sender.balance ≥ amount)
  let gasAmount ← mulU p 64 costs.peerToPeer gasUnitPrice
  let toDeduct ← addU p 64 amount gasAmount
  let enoughMaxGas := decide (sender.balance ≥ gasAmount)
  let enoughToSucceed := decide (sender.balance ≥ toDeduct)
  match enoughMaxGas, enoughToTransfer, enoughToSucceed with
  | true, true, true => do
    let sequenceNumber ← addU p 64 sender.sequenceNumber 1
    let sentEventsCount ← addU p 64 sender.sentEventsCount 1
    let balance ← subUWith p 64 sender.balance toDeduct
    let received ← addU p 64 receiver.balance amount
    let receivedEventsCount ← addU p 64 receiver.receivedEventsCount 1
    return (({ sender with sequenceNumber, sentEventsCount, balance },
      { receiver with balance := received, receivedEventsCount }), .success, costs.peerToPeer)
  | true, true, false => do
    let sequenceNumber ← addU p 64 sender.sequenceNumber 1
    let fee ← mulU p 64 costs.peerToPeer gasUnitPrice
    let balance ← subUWith p 64 sender.balance fee
    return (({ sender with sequenceNumber, balance }, receiver), .moveAbort "coin" 65542,
      costs.peerToPeer)
  | true, false, _ => do
    let sequenceNumber ← addU p 64 sender.sequenceNumber 1
    let fee ← mulU p 64 costs.peerToPeerTooLow gasUnitPrice
    let balance ← subUWith p 64 sender.balance fee
    return (({ sender with sequenceNumber, balance }, receiver), .moveAbort "coin" 65542,
      costs.peerToPeerTooLow)
  | false, _, _ => return ((sender, receiver), .insufficientBalanceForTransactionFee, 0)

/-- `P2PTransferGen::apply`. -/
def P2PTransferGen.apply (p : Overflow) (costs : GasCosts) (gen : P2PTransferGen) (u : Universe) :
    Except Fault (Generated × Universe) := do
  let ((idx₁, idx₂), u) ← gen.senderReceiver.pick p u
  match u.accounts[idx₁]?, u.accounts[idx₂]? with
  | some sender, some receiver => do
    let ((sender', receiver'), status, gasUsed) ← settle p costs gen.amount sender receiver
    return ({ sender := idx₁, receiver := idx₂, sequenceNumber := sender.sequenceNumber, status,
              gasUsed },
      { u with accounts := (u.accounts.set idx₁ sender').set idx₂ receiver' })
  | _, _ => .error .outOfRange

/-- Generators applied one after another. -/
def applyAll (p : Overflow) (costs : GasCosts) : List P2PTransferGen → Universe →
    Except Fault (List Generated × Universe)
  | [], u => .ok ([], u)
  | gen :: gens, u => do
    let (out, u) ← gen.apply p costs u
    let (outs, u) ← applyAll p costs gens u
    return (out :: outs, u)

/-! ### One transfer -/

/-- There is room for so many more of each count. -/
def AccountCurrent.Room (k : ℕ) (a : AccountCurrent) : Prop :=
  a.sequenceNumber + k < 2 ^ 64 ∧ a.sentEventsCount + k < 2 ^ 64 ∧
    a.receivedEventsCount + k < 2 ^ 64

/-- Each count grows by one at most. -/
theorem AccountCurrent.Room.next {k : ℕ} {a a' : AccountCurrent} (h : a.Room (k + 1))
    (hseq : a'.sequenceNumber ≤ a.sequenceNumber + 1)
    (hsent : a'.sentEventsCount ≤ a.sentEventsCount + 1)
    (hreceived : a'.receivedEventsCount ≤ a.receivedEventsCount + 1) : a'.Room k := by
  obtain ⟨h₁, h₂, h₃⟩ := h
  exact ⟨by omega, by omega, by omega⟩

/-- **One transfer** does not overflow, and takes only the gas from the two accounts. -/
theorem exists_settle (p : Overflow) {costs : GasCosts} {amount k : ℕ}
    {sender receiver : AccountCurrent} (hcosts : costs.peerToPeerTooLow ≤ costs.peerToPeer)
    (hamount : amount + costs.peerToPeer * gasUnitPrice < 2 ^ 64)
    (hbalance : sender.balance + receiver.balance < 2 ^ 64) (hs : sender.Room (k + 1))
    (hr : receiver.Room (k + 1)) :
    ∃ sender' receiver' status gasUsed,
      settle p costs amount sender receiver = .ok ((sender', receiver'), status, gasUsed) ∧
      sender'.balance + receiver'.balance + gasUsed * gasUnitPrice =
        sender.balance + receiver.balance ∧
      sender'.sequenceNumber = sender.sequenceNumber + (if status.isKept then 1 else 0) ∧
      receiver'.sequenceNumber = receiver.sequenceNumber ∧ sender'.Room k ∧ receiver'.Room k := by
  obtain ⟨hseq, hsent, -⟩ := id hs
  obtain ⟨-, -, hreceived⟩ := id hr
  have hlow : costs.peerToPeerTooLow * gasUnitPrice ≤ costs.peerToPeer * gasUnitPrice :=
    Nat.mul_le_mul_right _ hcosts
  have hgas : mulU p 64 costs.peerToPeer gasUnitPrice = .ok (costs.peerToPeer * gasUnitPrice) :=
    mulU_of_lt (by omega)
  have hgasLow : mulU p 64 costs.peerToPeerTooLow gasUnitPrice =
      .ok (costs.peerToPeerTooLow * gasUnitPrice) := mulU_of_lt (by omega)
  have hseqAdd : addU p 64 sender.sequenceNumber 1 = .ok (sender.sequenceNumber + 1) :=
    addU_of_lt (by omega)
  have hsame : receiver.Room k := hr.next (by omega) (by omega) (by omega)
  simp only [settle, hgas, addU_of_lt hamount, ok_bind]
  by_cases hmax : costs.peerToPeer * gasUnitPrice ≤ sender.balance
  · by_cases htransfer : amount ≤ sender.balance
    · by_cases hsucceed : amount + costs.peerToPeer * gasUnitPrice ≤ sender.balance
      · have hsentAdd : addU p 64 sender.sentEventsCount 1 = .ok (sender.sentEventsCount + 1) :=
          addU_of_lt (by omega)
        have hreceivedAdd : addU p 64 receiver.receivedEventsCount 1 =
            .ok (receiver.receivedEventsCount + 1) := addU_of_lt (by omega)
        have hcredit : addU p 64 receiver.balance amount = .ok (receiver.balance + amount) :=
          addU_of_lt (by omega)
        simp only [hmax, htransfer, hsucceed, decide_true, hseqAdd, hsentAdd, hreceivedAdd,
          hcredit, subUWith_of_le hsucceed, ok_bind]
        refine ⟨_, _, _, _, rfl, ?_, rfl, rfl, hs.next (Nat.le_refl _) (Nat.le_refl _)
          (Nat.le_succ _), hr.next (Nat.le_succ _) (Nat.le_succ _) (Nat.le_refl _)⟩
        dsimp only
        omega
      · simp only [hmax, htransfer, hsucceed, decide_true, decide_false, hseqAdd,
          subUWith_of_le hmax, ok_bind]
        refine ⟨_, _, _, _, rfl, ?_, rfl, rfl,
          hs.next (Nat.le_refl _) (Nat.le_succ _) (Nat.le_succ _), hsame⟩
        dsimp only
        omega
    · have hfee := Nat.le_trans hlow hmax
      simp only [hmax, htransfer, ge_iff_le, decide_true, decide_false, hseqAdd, hgasLow,
        subUWith_of_le hfee, ok_bind]
      refine ⟨_, _, _, _, rfl, ?_, rfl, rfl,
        hs.next (Nat.le_refl _) (Nat.le_succ _) (Nat.le_succ _), hsame⟩
      dsimp only
      omega
  · simp only [hmax, ge_iff_le, decide_false]
    exact ⟨_, _, _, _, rfl, by omega, rfl, rfl,
      hs.next (Nat.le_succ _) (Nat.le_succ _) (Nat.le_succ _), hsame⟩

/-! ### The accounts after a transfer -/

/-- The sum of all balances. -/
def totalBalance (accounts : List AccountCurrent) : ℕ :=
  (accounts.map AccountCurrent.balance).sum

/-- The sequence number of the account at an index. -/
def sequenceOf (accounts : List AccountCurrent) (i : ℕ) : ℕ :=
  (accounts[i]?.map AccountCurrent.sequenceNumber).getD 0

theorem totalBalance_set {accounts : List AccountCurrent} {i : ℕ} {a : AccountCurrent}
    (h : accounts[i]? = some a) (a' : AccountCurrent) :
    totalBalance (accounts.set i a') + a.balance = totalBalance accounts + a'.balance := by
  induction accounts generalizing i with
  | nil => cases h
  | cons b accounts ih =>
    cases i with
    | zero =>
      obtain rfl : b = a := Option.some.inj h
      simp only [List.set_cons_zero, totalBalance, List.map_cons, List.sum_cons]
      omega
    | succ i =>
      have hrest := ih (i := i) h
      simp only [totalBalance] at hrest
      simp only [List.set_cons_succ, totalBalance, List.map_cons, List.sum_cons]
      omega

theorem balance_le_total {accounts : List AccountCurrent} {i j : ℕ} {a b : AccountCurrent}
    (hne : i ≠ j) (hi : accounts[i]? = some a) (hj : accounts[j]? = some b) :
    a.balance + b.balance ≤ totalBalance accounts := by
  have h₁ := totalBalance_set hi ⟨0, 0, 0, 0⟩
  have hj' : (accounts.set i ⟨0, 0, 0, 0⟩)[j]? = some b := by
    rw [List.getElem?_set_ne hne, hj]
  have h₂ := totalBalance_set hj' ⟨0, 0, 0, 0⟩
  dsimp only at h₁ h₂
  omega

theorem sequenceOf_set {accounts : List AccountCurrent} {i : ℕ} (hi : i < accounts.length)
    (a : AccountCurrent) :
    sequenceOf (accounts.set i a) = Function.update (sequenceOf accounts) i a.sequenceNumber := by
  funext j
  by_cases hj : j = i
  · simp [sequenceOf, hj, hi]
  · rw [Function.update_of_ne hj, sequenceOf, sequenceOf, List.getElem?_set_ne (Ne.symm hj)]

section Pair

variable {accounts : List AccountCurrent} {i j : ℕ}
  {sender receiver sender' receiver' : AccountCurrent}

/-- Where two accounts are changed, the total changes by what they have together. -/
theorem totalBalance_set_set (hne : i ≠ j) (hi : accounts[i]? = some sender)
    (hj : accounts[j]? = some receiver) :
    totalBalance ((accounts.set i sender').set j receiver') +
        (sender.balance + receiver.balance) =
      totalBalance accounts + (sender'.balance + receiver'.balance) := by
  have hj' : (accounts.set i sender')[j]? = some receiver := by
    rw [List.getElem?_set_ne hne, hj]
  have h₁ := totalBalance_set hi sender'
  have h₂ := totalBalance_set hj' receiver'
  omega

theorem sequenceOf_of_getElem? (hi : accounts[i]? = some sender) :
    sequenceOf accounts i = sender.sequenceNumber := by
  rw [sequenceOf, hi]
  rfl

/-- If the second one keeps its sequence number, only that of the first one changes. -/
theorem sequenceOf_set_set (hne : i ≠ j) (hi : i < accounts.length)
    (hj : accounts[j]? = some receiver)
    (hkeep : receiver'.sequenceNumber = receiver.sequenceNumber) :
    sequenceOf ((accounts.set i sender').set j receiver') =
      Function.update (sequenceOf accounts) i sender'.sequenceNumber := by
  have hj' : j < (accounts.set i sender').length := by
    rw [List.length_set]
    exact (List.getElem?_eq_some_iff.mp hj).1
  rw [sequenceOf_set hj', sequenceOf_set hi, hkeep, ← sequenceOf_of_getElem? hj,
    Function.update_comm hne, Function.update_eq_self]

/-- What all accounts have in common is left so by two accounts that have it. -/
theorem forall_mem_set_set {P : AccountCurrent → Prop} (hall : ∀ a ∈ accounts, P a)
    (hs : P sender') (hr : P receiver') : ∀ a ∈ (accounts.set i sender').set j receiver', P a := by
  intro a ha
  rcases List.mem_or_eq_of_mem_set ha with ha | rfl
  · rcases List.mem_or_eq_of_mem_set ha with ha | rfl
    · exact hall a ha
    · exact hs
  · exact hr

end Pair

/-! ### Runs of transfers -/

/-- A picker that goes with a number of accounts. -/
def AccountPicker.Fits (n : ℕ) : AccountPicker → Prop
  | .unlimited numAccounts => numAccounts = n
  | .limited remaining => Ordered n remaining

/-- There are always two accounts to pick. -/
def AccountPicker.Endless : AccountPicker → Prop
  | .unlimited numAccounts => 2 ≤ numAccounts
  | .limited _ => False

theorem pickPair_cases {n : ℕ} {picker : AccountPicker} (h : picker.Fits n) (p : Overflow)
    {s : Sampler} (hs : s.Valid) :
    (pickPair p s picker = .error .assertion ∧ ¬ picker.Endless) ∨
      ∃ a b picker', pickPair p s picker = .ok ((a, b), picker') ∧ a < b ∧ b < n ∧
        picker'.Fits n ∧ (picker.Endless → picker'.Endless) := by
  cases picker with
  | unlimited numAccounts =>
    obtain rfl : numAccounts = n := h
    rcases pickPairImpl_cases hs numAccounts with ⟨hlen, himpl⟩ | ⟨i, j, himpl, hij, hj⟩
    · refine .inl ⟨?_, Nat.not_le.mpr hlen⟩
      rw [pickPair, himpl]
      rfl
    · refine .inr ⟨i, j, .unlimited numAccounts, ?_, hij, hj, rfl, id⟩
      rw [pickPair, himpl]
      rfl
  | limited remaining =>
    rcases pickPair_limited h p hs with ⟨-, hpick⟩ | ⟨a, b, rem', hpick, hab, hb, hord, -⟩
    · exact .inl ⟨hpick, id⟩
    · exact .inr ⟨a, b, .limited rem', hpick, hab, hb, hord, id⟩

/-- Picking a pair of accounts of a universe: the indices are those of two accounts. -/
theorem pick_cases {u : Universe} (h : u.picker.Fits u.accounts.length) (p : Overflow)
    {gen : AccountPairGen} (hs : gen.pair.Valid) :
    (gen.pick p u = .error .assertion ∧ ¬ u.picker.Endless) ∨
      ∃ i j picker, gen.pick p u = .ok ((i, j), { u with picker }) ∧ i ≠ j ∧
        i < u.accounts.length ∧ j < u.accounts.length ∧ picker.Fits u.accounts.length ∧
        (u.picker.Endless → picker.Endless) := by
  rcases pickPair_cases h p hs with ⟨hpick, hendless⟩ |
      ⟨a, b, picker, hpick, hab, hb, hfits, hendless⟩
  · refine .inl ⟨?_, hendless⟩
    rw [AccountPairGen.pick, hpick]
    rfl
  · right
    have hlow : ¬ u.accounts.length < a + 1 := by omega
    have htail : ¬ u.accounts.length - (a + 1) ≤ b - a - 1 := by omega
    have hpick' : gen.pick p u =
        .ok (if gen.reverse then (b, a) else (a, b), { u with picker }) := by
      simp only [AccountPairGen.pick, hpick, ok_bind, if_neg hlow,
        subUWith_of_le (Nat.le_of_lt hab), subUWith_of_le (Nat.sub_pos_of_lt hab), if_neg htail]
      rfl
    cases hreverse : gen.reverse with
    | true =>
      refine ⟨b, a, picker, ?_, by omega, hb, by omega, hfits, hendless⟩
      rw [hpick', hreverse]
      rfl
    | false =>
      refine ⟨a, b, picker, ?_, by omega, by omega, hb, hfits, hendless⟩
      rw [hpick', hreverse]
      rfl

/-- The sequence numbers after a transaction: that of the sender grows if it is kept. -/
def bump (seq : ℕ → ℕ) (out : Generated) : ℕ → ℕ :=
  if out.status.isKept then Function.update seq out.sender (seq out.sender + 1) else seq

/-- Each transaction has the sequence number that its sender has by then. -/
def InSequence : (ℕ → ℕ) → List Generated → Prop
  | _, [] => True
  | seq, out :: outs => out.sequenceNumber = seq out.sender ∧ InSequence (bump seq out) outs

/-- What is known of a universe with so many transfers to come. -/
structure Funded (k : ℕ) (u : Universe) : Prop where
  /-- The picker goes with the accounts. -/
  fits : u.picker.Fits u.accounts.length
  /-- All balances together are a `u64`. -/
  total : totalBalance u.accounts < 2 ^ 64
  /-- No count overflows. -/
  room : ∀ a ∈ u.accounts, a.Room k

/-- **One generator.** -/
theorem apply_cases {k : ℕ} {u : Universe} (h : Funded (k + 1) u) (p : Overflow)
    {costs : GasCosts} (hcosts : costs.peerToPeerTooLow ≤ costs.peerToPeer)
    {gen : P2PTransferGen} (hs : gen.senderReceiver.pair.Valid)
    (hamount : gen.amount + costs.peerToPeer * gasUnitPrice < 2 ^ 64) :
    (gen.apply p costs u = .error .assertion ∧ ¬ u.picker.Endless) ∨
      ∃ out u', gen.apply p costs u = .ok (out, u') ∧ Funded k u' ∧
        (u.picker.Endless → u'.picker.Endless) ∧
        totalBalance u'.accounts + out.gasUsed * gasUnitPrice = totalBalance u.accounts ∧
        out.sequenceNumber = sequenceOf u.accounts out.sender ∧
        sequenceOf u'.accounts = bump (sequenceOf u.accounts) out := by
  rcases pick_cases h.fits p hs with ⟨hpick, hendless⟩ |
      ⟨i, j, picker, hpick, hne, hi, hj, hfits, hendless⟩
  · refine .inl ⟨?_, hendless⟩
    rw [P2PTransferGen.apply, hpick]
    rfl
  · right
    have hsender : u.accounts[i]? = some u.accounts[i] := List.getElem?_eq_getElem hi
    have hreceiver : u.accounts[j]? = some u.accounts[j] := List.getElem?_eq_getElem hj
    have hboth := balance_le_total hne hsender hreceiver
    obtain ⟨s', r', status, gasUsed, hsettle, hbalance, hseq, hseq', hroom, hroom'⟩ :=
      exists_settle p hcosts hamount (Nat.lt_of_le_of_lt hboth h.total)
        (h.room _ (List.getElem_mem hi)) (h.room _ (List.getElem_mem hj))
    have htotal : totalBalance ((u.accounts.set i s').set j r') +
        (u.accounts[i].balance + u.accounts[j].balance) =
        totalBalance u.accounts + (s'.balance + r'.balance) :=
      totalBalance_set_set hne hsender hreceiver
    refine ⟨⟨i, j, u.accounts[i].sequenceNumber, status, gasUsed⟩,
      ⟨(u.accounts.set i s').set j r', picker⟩, ?_, ⟨?_, ?_, ?_⟩, hendless, ?_, ?_, ?_⟩
    · simp only [P2PTransferGen.apply, hpick, ok_bind, hsender, hreceiver, hsettle]
      rfl
    · simpa using hfits
    · have hlt := h.total
      dsimp only
      omega
    · exact forall_mem_set_set (fun a ha => (h.room a ha).next (Nat.le_succ _) (Nat.le_succ _)
        (Nat.le_succ _)) hroom hroom'
    · dsimp only
      omega
    · exact (sequenceOf_of_getElem? hsender).symm
    · -- the receiver keeps its number
      rw [sequenceOf_set_set hne hi hreceiver hseq', bump, hseq, ← sequenceOf_of_getElem? hsender]
      cases status.isKept with
      | true => simp
      | false => simp

/-- **Transfers take nothing but gas.** No generator overflows, whichever accounts it is given, and
however the code was compiled. What the accounts have lost after a run is the gas that the
transactions should use, and each transaction has the sequence number its sender has by then. A run
can only fail by asking for a pair of accounts when there is none. -/
theorem transfers_conserve (p : Overflow) {costs : GasCosts}
    (hcosts : costs.peerToPeerTooLow ≤ costs.peerToPeer) {gens : List P2PTransferGen}
    (hgens : ∀ gen ∈ gens, gen.senderReceiver.pair.Valid ∧
      gen.amount + costs.peerToPeer * gasUnitPrice < 2 ^ 64)
    {u : Universe} (h : Funded gens.length u) :
    (applyAll p costs gens u = .error .assertion ∧ ¬ u.picker.Endless) ∨
      ∃ outs u', applyAll p costs gens u = .ok (outs, u') ∧ outs.length = gens.length ∧
        totalBalance u'.accounts + (outs.map Generated.gasUsed).sum * gasUnitPrice =
          totalBalance u.accounts ∧
        InSequence (sequenceOf u.accounts) outs ∧
        sequenceOf u'.accounts = outs.foldl bump (sequenceOf u.accounts) := by
  induction gens generalizing u with
  | nil => exact .inr ⟨[], u, rfl, rfl, rfl, trivial, rfl⟩
  | cons gen gens ih =>
    obtain ⟨⟨hs, hamount⟩, hgens⟩ := List.forall_mem_cons.mp hgens
    rcases apply_cases h p hcosts hs hamount with ⟨hfail, hendless⟩ |
        ⟨out, u₁, happly, hfunded, hendless, htotal, hnumber, hseq⟩
    · refine .inl ⟨?_, hendless⟩
      rw [applyAll, hfail]
      rfl
    · rcases ih hgens hfunded with ⟨hfail, hend⟩ | ⟨outs, u', hrun, hlen, htotal', hin, hseq'⟩
      · refine .inl ⟨?_, fun hpicker => hend (hendless hpicker)⟩
        simp only [applyAll, happly, hfail, ok_bind]
        rfl
      · refine .inr ⟨out :: outs, u', ?_, by simp [hlen], ?_, ⟨hnumber, hseq ▸ hin⟩, ?_⟩
        · simp only [applyAll, happly, hrun, ok_bind]
          rfl
        · rw [List.map_cons, List.sum_cons, Nat.add_mul]
          omega
        · rw [hseq', hseq, List.foldl_cons]

/-- Two accounts, the second of which cannot pay for the gas of a transfer. -/
def richAndPoor : Universe :=
  ⟨[⟨1000, 7, 0, 0⟩, ⟨10, 0, 0, 0⟩], .unlimited 2⟩

/-- A transfer from the first account to the second, and one the other way. -/
def backAndForth : List P2PTransferGen := [⟨⟨firstTwo, false⟩, 300⟩, ⟨⟨firstTwo, true⟩, 5⟩]

theorem transfers_conserve_backAndForth :
    (applyAll .wrap ⟨4, 3⟩ backAndForth richAndPoor = .error .assertion ∧
        ¬ richAndPoor.picker.Endless) ∨
      ∃ outs u', applyAll .wrap ⟨4, 3⟩ backAndForth richAndPoor = .ok (outs, u') ∧
        outs.length = backAndForth.length ∧
        totalBalance u'.accounts + (outs.map Generated.gasUsed).sum * gasUnitPrice =
          totalBalance richAndPoor.accounts ∧
        InSequence (sequenceOf richAndPoor.accounts) outs ∧
        sequenceOf u'.accounts = outs.foldl bump (sequenceOf richAndPoor.accounts) := by
  refine transfers_conserve .wrap (by decide) ?_ ⟨rfl, by decide, ?_⟩
  · simp [backAndForth, valid_firstTwo, gasUnitPrice]
  · simp [richAndPoor, backAndForth, AccountCurrent.Room]

end AccountUniverse

end Aptos

end RelayContracts
