import RelayContracts.SequenceNumbers

/-!
# The message builders of the Sei benchmark

Six functions build the messages that the benchmark executes, one for each workload and one that
replays a file. All of them take the nonce of a message from one global map, in which the entry of
an account is made with its first message. They are called batch after batch, and most of them draw
the account at random.

The loop is the same in all of them: something decides about the account and the call data of the
next message, or that there is none, and then the message is signed. `forMsgs` is that loop, and
each builder is `forMsgs` with a decision of its own. So the nonces are a matter of `signMsg`.

An account is its index in `ctx.TestAccounts`. The `j`-th number that is drawn for message `i` is
`rand i j`, reduced to the range that was asked for.

## Main definitions

* `airdropMsgForEVM`, `ballotMsgForEVM`, `mytokenMsgForEVM`, `kittyMsgForEVM`,
  `millionPixelMsgForEVM`, `ethHitoricalMsgReplayForEVM` — the builders
* `produce` — any calls of them, one after the other

## Main results

* `nonces_consecutive` — the nonces of an account are consecutive `uint64` numbers
* `nonces_start_over` — which come after `2 ^ 64 - 1` to zero again
-/

namespace RelayContracts

namespace Sei

namespace Messages

open SequenceNumbers

/-- Why a builder panicked. -/
inductive Panic where
  /-- An index was out of the range of a slice. -/
  | indexOutOfRange
  /-- `Intn` was called with a number that is not positive. -/
  | invalidArgument
  /-- "contract should deploy first". -/
  | notDeployed
  /-- A file could not be opened. -/
  | openError
  /-- A record could not be read. -/
  | readError
  deriving DecidableEq, Repr

/-- The keys of `ContractAddress`. -/
inductive Contract where
  | airdrop
  | ballot
  | mytoken
  | kitty
  | millionPixel
  deriving DecidableEq, Repr

/-- What `contractAbi.Pack` is called with. -/
inductive Calldata where
  /-- `"transfer_n"`. -/
  | transferN (sender : ℕ) (recipients : List (ℕ × ℕ))
  /-- `"vote"`. -/
  | vote (voter proposal weight : ℕ)
  /-- `"transfer"`. -/
  | transfer (sender recipient amount : ℕ)
  /-- `"breed"`. -/
  | breed (owner m s : ℕ) (gender : Bool)
  /-- `"occupy"`. -/
  | occupy (owner x y : ℕ)
  deriving DecidableEq, Repr

/-- `ethtypes.DynamicFeeTx`. -/
structure DynamicFeeTx (A : Type) where
  /-- `GasFeeCap`. -/
  gasFeeCap : ℕ
  /-- `GasTipCap`. -/
  gasTipCap : ℕ
  /-- `Gas`. -/
  gas : ℕ
  /-- `To`. -/
  contract : A
  /-- `Value`. -/
  value : ℕ
  /-- `Data`. -/
  data : Calldata
  /-- `Nonce`. -/
  nonce : UInt64
  deriving DecidableEq, Repr

/-- `utils.TestMessage`. -/
structure TestMessage (A : Type) where
  /-- `Msg`. -/
  msg : DynamicFeeTx A
  /-- `EVMSigner`. -/
  evmSigner : ℕ
  /-- `Type`. -/
  type : String
  deriving DecidableEq, Repr

/-- The global variables. -/
structure Globals (A : Type) where
  /-- `NonceMap`. -/
  nonceMap : ℕ → Option UInt64
  /-- `ContractAddress`. -/
  contractAddress : Contract → Option A

variable {A ι : Type}

/-! ### The builders -/

/-- `ctx.TestAccounts[i]`, where there are `n` accounts. -/
def testAccount (n i : ℕ) : Except Panic ℕ := if i < n then .ok i else .error .indexOutOfRange

/-- `r.Intn(n)`. -/
def intn (n r : ℕ) : Except Panic ℕ := if n = 0 then .error .invalidArgument else .ok (r % n)

/-- The nonce of an account, and the map with the next one. -/
def takeNonce (nonceMap : ℕ → Option UInt64) (i : ℕ) : UInt64 × (ℕ → Option UInt64) :=
  match nonceMap i with
  | some nonce => (nonce, Function.update nonceMap i (some (nonce + 1)))
  | none => (0, Function.update nonceMap i (some 1))

/-- The transaction before it is signed. -/
def newTx (ca : A) (calldata : Calldata) (nonce : UInt64) : DynamicFeeTx A :=
  ⟨1000000000000, 1000000000000, 1000000, ca, 0, calldata, nonce⟩

/-- From the nonce to the message. -/
def signMsg (contract : Contract) (type : String) (fromIndex : ℕ) (calldata : Calldata)
    (g : Globals A) : Except Panic (TestMessage A × Globals A) :=
  match g.contractAddress contract with
  | none => .error .notDeployed
  | some ca =>
    .ok (⟨newTx ca calldata (takeNonce g.nonceMap fromIndex).1, fromIndex, type⟩,
      { g with nonceMap := (takeNonce g.nonceMap fromIndex).2 })

/-- The loop of a builder. `plan` decides about the next message, `none` is `continue`. -/
def forMsgs (contract : Contract) (type : String)
    (plan : ι → Except Panic (Option (ℕ × Calldata))) :
    List ι → Globals A → Except Panic (List (TestMessage A) × Globals A)
  | [], g => .ok ([], g)
  | i :: is, g => do
    match ← plan i with
    | none => forMsgs contract type plan is g
    | some (fromIndex, calldata) =>
      let (msg, g) ← signMsg contract type fromIndex calldata g
      let (msgs, g) ← forMsgs contract type plan is g
      .ok (msg :: msgs, g)

/-- The message of an airdrop. -/
def airdropPlan (n : ℕ) (rand : ℕ → ℕ → ℕ) (i : ℕ) : Except Panic (Option (ℕ × Calldata)) := do
  let fromIndex ← intn n (rand i 0)
  let to1 ← intn n (rand i 1)
  let to2 ← intn n (rand i 2)
  let to3 ← intn n (rand i 3)
  let to4 ← intn n (rand i 4)
  let to5 ← intn n (rand i 5)
  .ok (some (fromIndex, .transferN fromIndex
    [(to1, 100), (to2, 100), (to3, 100), (to4, 100), (to5, 100)]))

/-- `AirdropMsgForEVM(ctx, count)`. -/
def airdropMsgForEVM (n : ℕ) (rand : ℕ → ℕ → ℕ) (count : ℕ) :
    Globals A → Except Panic (List (TestMessage A) × Globals A) :=
  forMsgs .airdrop "EVM Airdrop" (airdropPlan n rand) (List.range count)

/-- The message of a vote. -/
def ballotPlan (n : ℕ) (rand : ℕ → ℕ → ℕ) (i : ℕ) : Except Panic (Option (ℕ × Calldata)) := do
  let voter ← testAccount n i
  let proposal ← intn 3 (rand i 0)
  .ok (some (i, .vote voter proposal 1))

/-- `BallotMsgForEVM(ctx, count)`, in which message `i` is of account `i`. -/
def ballotMsgForEVM (n : ℕ) (rand : ℕ → ℕ → ℕ) (count : ℕ) :
    Globals A → Except Panic (List (TestMessage A) × Globals A) :=
  forMsgs .ballot "EVM Ballot" (ballotPlan n rand) (List.range count)

/-- The message of a transfer. -/
def mytokenPlan (n : ℕ) (rand : ℕ → ℕ → ℕ) (i : ℕ) : Except Panic (Option (ℕ × Calldata)) := do
  let fromIndex ← intn n (rand i 0)
  let toIndex ← intn n (rand i 1)
  .ok (some (fromIndex, .transfer fromIndex toIndex 1000))

/-- `MytokenMsgForEVM(ctx, count)`, where `opened` says whether the file `ERC20.Random.csv`, in
which it notes what it draws, could be opened. -/
def mytokenMsgForEVM (n : ℕ) (opened : Bool) (rand : ℕ → ℕ → ℕ) (count : ℕ) (g : Globals A) :
    Except Panic (List (TestMessage A) × Globals A) :=
  if opened then forMsgs .mytoken "EVM Mytoken" (mytokenPlan n rand) (List.range count) g
  else .error .openError

/-- The message of a breeding. -/
def kittyPlan (n : ℕ) (rand : ℕ → ℕ → ℕ) (i : ℕ) : Except Panic (Option (ℕ × Calldata)) := do
  let fromIndex ← intn n (rand i 0)
  let m ← intn 100 (rand i 1)
  let s ← intn 100 (rand i 2)
  .ok (some (fromIndex, .breed fromIndex m (s + 100) false))

/-- `KittyMsgForEVM(ctx, count)`. -/
def kittyMsgForEVM (n : ℕ) (rand : ℕ → ℕ → ℕ) (count : ℕ) :
    Globals A → Except Panic (List (TestMessage A) × Globals A) :=
  forMsgs .kitty "EVM Kitty" (kittyPlan n rand) (List.range count)

/-- The message of an occupation. -/
def millionPixelPlan (n : ℕ) (rand : ℕ → ℕ → ℕ) (i : ℕ) :
    Except Panic (Option (ℕ × Calldata)) := do
  let owner ← testAccount n i
  let x ← intn 1000 (rand i 0)
  let y ← intn 1000 (rand i 1)
  .ok (some (i, .occupy owner x y))

/-- `MillionPixelMsgForEVM(ctx, count)`, in which message `i` is of account `i`. -/
def millionPixelMsgForEVM (n : ℕ) (rand : ℕ → ℕ → ℕ) (count : ℕ) :
    Globals A → Except Panic (List (TestMessage A) × Globals A) :=
  forMsgs .millionPixel "EVM MillionPixel" (millionPixelPlan n rand) (List.range count)

/-- `ctx.TestAccounts[i]` for an `int`. -/
def testAccountInt (n : ℕ) : ℤ → Except Panic ℕ
  | .ofNat i => testAccount n i
  | .negSucc _ => .error .indexOutOfRange

/-- `record[k]`. -/
def field (record : List String) (k : ℕ) : Except Panic String :=
  match record[k]? with
  | none => .error .indexOutOfRange
  | some s => .ok s

/-- The message of a record. A record is skipped if one of the indices does not parse, and `none` is
a record that could not be read. -/
def replayPlan (n : ℕ) (atoi : String → Option ℤ) :
    Option (List String) → Except Panic (Option (ℕ × Calldata))
  | none => .error .readError
  | some record => do
    match atoi (← field record 0) with
    | none => .ok none
    | some fromIndex =>
      let sender ← testAccountInt n fromIndex
      match atoi (← field record 1) with
      | none => .ok none
      | some toIndex =>
        let recipient ← testAccountInt n toIndex
        .ok (some (sender, .transfer sender recipient 1000))

/-- `EthHitoricalMsgReplayForEVM(ctx, filepath)`, for what is found under the path. -/
def ethHitoricalMsgReplayForEVM (n : ℕ) (atoi : String → Option ℤ)
    (file : Option (List (Option (List String)))) (g : Globals A) :
    Except Panic (List (TestMessage A) × Globals A) :=
  match file with
  | none => .error .openError
  | some records => forMsgs .mytoken "EVM Mytoken" (replayPlan n atoi) records g

/-- A call of a builder. -/
inductive Call where
  /-- `AirdropMsgForEVM`. -/
  | airdrop (rand : ℕ → ℕ → ℕ) (count : ℕ)
  /-- `BallotMsgForEVM`. -/
  | ballot (rand : ℕ → ℕ → ℕ) (count : ℕ)
  /-- `MytokenMsgForEVM`. -/
  | mytoken (opened : Bool) (rand : ℕ → ℕ → ℕ) (count : ℕ)
  /-- `KittyMsgForEVM`. -/
  | kitty (rand : ℕ → ℕ → ℕ) (count : ℕ)
  /-- `MillionPixelMsgForEVM`. -/
  | millionPixel (rand : ℕ → ℕ → ℕ) (count : ℕ)
  /-- `EthHitoricalMsgReplayForEVM`. -/
  | replay (file : Option (List (Option (List String))))

/-- Make a call. -/
def build (n : ℕ) (atoi : String → Option ℤ) :
    Call → Globals A → Except Panic (List (TestMessage A) × Globals A)
  | .airdrop rand count => airdropMsgForEVM n rand count
  | .ballot rand count => ballotMsgForEVM n rand count
  | .mytoken opened rand count => mytokenMsgForEVM n opened rand count
  | .kitty rand count => kittyMsgForEVM n rand count
  | .millionPixel rand count => millionPixelMsgForEVM n rand count
  | .replay file => ethHitoricalMsgReplayForEVM n atoi file

/-- All messages of a sequence of calls. -/
def produce (n : ℕ) (atoi : String → Option ℤ) :
    List Call → Globals A → Except Panic (List (TestMessage A) × Globals A)
  | [], g => .ok ([], g)
  | call :: calls, g => do
    let (msgs, g) ← build n atoi call g
    let (rest, g) ← produce n atoi calls g
    .ok (msgs ++ rest, g)

/-! ### The nonces -/

/-- The nonce that the next message of an account gets. -/
def Globals.next (g : Globals A) (i : ℕ) : ℕ := ((g.nonceMap i).getD 0).toNat

/-- The nonce of a message, as a number. -/
def TestMessage.nonce (m : TestMessage A) : ℕ := m.msg.nonce.toNat

/-- The nonces of an account, in the order of the messages. -/
def noncesOf (i : ℕ) (msgs : List (TestMessage A)) : List ℕ :=
  numbersOf TestMessage.evmSigner TestMessage.nonce i msgs

theorem getD_takeNonce (nonceMap : ℕ → Option UInt64) (i j : ℕ) :
    (((takeNonce nonceMap i).2 j).getD 0).toNat =
      Function.update (fun j => ((nonceMap j).getD 0).toNat) i
        (succU 64 ((nonceMap i).getD 0).toNat) j := by
  by_cases hj : j = i
  · subst hj
    rw [takeNonce.eq_def, Function.update_self]
    cases nonceMap j with
    | none => simp [succU]
    | some nonce => simp [succU]
  · rw [takeNonce.eq_def, Function.update_of_ne hj]
    cases nonceMap i with
    | none => simp [hj]
    | some nonce => simp [hj]

theorem fst_takeNonce (nonceMap : ℕ → Option UInt64) (i : ℕ) :
    (takeNonce nonceMap i).1 = (nonceMap i).getD 0 := by
  rw [takeNonce.eq_def]
  cases nonceMap i with
  | none => rfl
  | some nonce => rfl

section Issued

variable {contract : Contract} {type : String} {plan : ι → Except Panic (Option (ℕ × Calldata))}
  {g g' : Globals A} {msgs : List (TestMessage A)} {n : ℕ} {atoi : String → Option ℤ}

/-- The step lemma. A message has the nonce of its signer, and the next one is the successor. -/
theorem issued_of_signMsg {i : ℕ} {calldata : Calldata} {m : TestMessage A}
    (h : signMsg contract type i calldata g = .ok (m, g')) :
    Issued TestMessage.evmSigner TestMessage.nonce (succU 64) g.next [m] g'.next := by
  rw [signMsg.eq_def] at h
  split at h
  · cases h
  · cases h
    have hnext : Globals.next { g with nonceMap := (takeNonce g.nonceMap i).2 } =
        Function.update g.next i (succU 64 (g.next i)) :=
      funext fun j => getD_takeNonce g.nonceMap i j
    rw [hnext]
    exact .single (congrArg UInt64.toNat (fst_takeNonce g.nonceMap i))

theorem issued_of_forMsgs {is : List ι} (h : forMsgs contract type plan is g = .ok (msgs, g')) :
    Issued TestMessage.evmSigner TestMessage.nonce (succU 64) g.next msgs g'.next := by
  induction is generalizing g msgs with
  | nil =>
    cases h
    exact .nil _
  | cons i is ih =>
    obtain ⟨choice, -, h⟩ := exists_of_bind_eq_ok h
    cases choice with
    | none => exact ih h
    | some choice =>
      obtain ⟨⟨m, g₁⟩, hm, h⟩ := exists_of_bind_eq_ok h
      obtain ⟨⟨rest, g₂⟩, hrest, h⟩ := exists_of_bind_eq_ok h
      cases h
      exact (issued_of_signMsg hm).append (ih hrest)

theorem issued_of_build {call : Call} (h : build n atoi call g = .ok (msgs, g')) :
    Issued TestMessage.evmSigner TestMessage.nonce (succU 64) g.next msgs g'.next := by
  cases call with
  | airdrop rand count => exact issued_of_forMsgs h
  | ballot rand count => exact issued_of_forMsgs h
  | mytoken opened rand count =>
    cases opened with
    | false => cases h
    | true => exact issued_of_forMsgs h
  | kitty rand count => exact issued_of_forMsgs h
  | millionPixel rand count => exact issued_of_forMsgs h
  | replay file =>
    cases file with
    | none => cases h
    | some records => exact issued_of_forMsgs h

/-- The run lemma, for any calls of the builders. -/
theorem issued_of_produce {calls : List Call} (h : produce n atoi calls g = .ok (msgs, g')) :
    Issued TestMessage.evmSigner TestMessage.nonce (succU 64) g.next msgs g'.next := by
  induction calls generalizing g msgs with
  | nil =>
    cases h
    exact .nil _
  | cons call calls ih =>
    obtain ⟨⟨batch, g₁⟩, hbatch, h⟩ := exists_of_bind_eq_ok h
    obtain ⟨⟨rest, g₂⟩, hrest, h⟩ := exists_of_bind_eq_ok h
    cases h
    exact (issued_of_build hbatch).append (ih hrest)

end Issued

/-! ### Calls that do not panic -/

/-- A record that can be replayed: an index that parses is one of an account. -/
def Replayable (n : ℕ) (atoi : String → Option ℤ) (record : List String) : Prop :=
  ∃ s, record[0]? = some s ∧ (atoi s = none ∨ ∃ i < n, atoi s = some (Int.ofNat i) ∧
    ∃ s', record[1]? = some s' ∧ (atoi s' = none ∨ ∃ j < n, atoi s' = some (Int.ofNat j)))

/-- The calls that stay within the list of accounts, with files that can be opened and replayed. -/
def Call.Admissible (n : ℕ) (atoi : String → Option ℤ) : Call → Prop
  | .airdrop _ count => count = 0 ∨ 0 < n
  | .ballot _ count => count ≤ n
  | .mytoken opened _ count => opened = true ∧ (count = 0 ∨ 0 < n)
  | .kitty _ count => count = 0 ∨ 0 < n
  | .millionPixel _ count => count ≤ n
  | .replay file => ∃ records, file = some records ∧
      ∀ r ∈ records, ∃ record, r = some record ∧ Replayable n atoi record

section Total

variable {contract : Contract} {type : String} {plan : ι → Except Panic (Option (ℕ × Calldata))}
  {g : Globals A} {n : ℕ} {atoi : String → Option ℤ}

theorem testAccount_of_lt {i : ℕ} (h : i < n) : testAccount n i = .ok i := if_pos h

theorem testAccountInt_of_lt {i : ℕ} (h : i < n) : testAccountInt n (Int.ofNat i) = .ok i :=
  testAccount_of_lt h

theorem intn_of_pos {r : ℕ} (h : 0 < n) : intn n r = .ok (r % n) := if_neg (Nat.ne_of_gt h)

theorem exists_forMsgs {is : List ι} (hc : (g.contractAddress contract).isSome)
    (hplan : ∀ i ∈ is, ∃ choice, plan i = .ok choice) :
    ∃ msgs g', forMsgs contract type plan is g = .ok (msgs, g') ∧
      g'.contractAddress = g.contractAddress := by
  induction is generalizing g with
  | nil => exact ⟨[], g, rfl, rfl⟩
  | cons i is ih =>
    obtain ⟨choice, hchoice⟩ := hplan i List.mem_cons_self
    have hplan' : ∀ j ∈ is, ∃ choice, plan j = .ok choice :=
      fun j hj => hplan j (List.mem_cons_of_mem i hj)
    rw [forMsgs, hchoice, ok_bind]
    cases choice with
    | none => exact ih hc hplan'
    | some choice =>
      obtain ⟨ca, hca⟩ := Option.isSome_iff_exists.mp hc
      obtain ⟨m, g₁, hm, hg₁⟩ : ∃ m g₁, signMsg contract type choice.1 choice.2 g = .ok (m, g₁) ∧
          g₁.contractAddress = g.contractAddress := by
        rw [signMsg, hca]
        exact ⟨_, _, rfl, rfl⟩
      obtain ⟨msgs, g', hmsgs, hg'⟩ := ih (hg₁ ▸ hc) hplan'
      refine ⟨m :: msgs, g', ?_, hg'.trans hg₁⟩
      simp only [hm, ok_bind, hmsgs]

/-- A loop that draws its accounts panics only if there is none. -/
theorem exists_forMsgs_range {count : ℕ} {plan : ℕ → Except Panic (Option (ℕ × Calldata))}
    (hc : (g.contractAddress contract).isSome) (hcount : count = 0 ∨ 0 < n)
    (hplan : 0 < n → ∀ i, ∃ choice, plan i = .ok choice) :
    ∃ msgs g', forMsgs contract type plan (List.range count) g = .ok (msgs, g') ∧
      g'.contractAddress = g.contractAddress := by
  refine exists_forMsgs hc fun i hi => hplan ?_ i
  rcases hcount with rfl | hn
  · exact absurd hi List.not_mem_nil
  · exact hn

theorem exists_replayPlan {record : List String} (h : Replayable n atoi record) :
    ∃ choice, replayPlan n atoi (some record) = .ok choice := by
  obtain ⟨s, hs, h⟩ := h
  have hs : field record 0 = .ok s := by rw [field, hs]
  rw [replayPlan, hs, ok_bind]
  rcases h with h | ⟨i, hi, h, s', hs', h'⟩
  · exact ⟨none, by rw [h]⟩
  have hs' : field record 1 = .ok s' := by rw [field, hs']
  simp only [h, testAccountInt_of_lt hi, ok_bind, hs']
  rcases h' with h' | ⟨j, hj, h'⟩
  · exact ⟨none, by rw [h']⟩
  · simp only [h', testAccountInt_of_lt hj, ok_bind]
    exact ⟨_, rfl⟩

theorem exists_build {call : Call} (hg : ∀ c, (g.contractAddress c).isSome)
    (hcall : call.Admissible n atoi) :
    ∃ msgs g', build n atoi call g = .ok (msgs, g') ∧ g'.contractAddress = g.contractAddress := by
  cases call with
  | airdrop rand count =>
    refine exists_forMsgs_range (hg _) hcall fun hn i => ?_
    simp only [airdropPlan, intn_of_pos hn, ok_bind]
    exact ⟨_, rfl⟩
  | ballot rand count =>
    refine exists_forMsgs (hg _) fun i hi => ?_
    have hi : i < n := lt_of_lt_of_le (List.mem_range.mp hi) hcall
    exact ⟨_, by rw [ballotPlan, testAccount_of_lt hi, ok_bind, intn_of_pos (by decide), ok_bind]⟩
  | mytoken opened rand count =>
    obtain ⟨rfl, hcount⟩ := hcall
    refine exists_forMsgs_range (hg _) hcount fun hn i => ?_
    simp only [mytokenPlan, intn_of_pos hn, ok_bind]
    exact ⟨_, rfl⟩
  | kitty rand count =>
    refine exists_forMsgs_range (hg _) hcall fun hn i => ?_
    rw [kittyPlan, intn_of_pos hn]
    exact ⟨_, rfl⟩
  | millionPixel rand count =>
    refine exists_forMsgs (hg _) fun i hi => ?_
    have hi : i < n := lt_of_lt_of_le (List.mem_range.mp hi) hcall
    rw [millionPixelPlan, testAccount_of_lt hi]
    exact ⟨_, rfl⟩
  | replay file =>
    obtain ⟨records, rfl, hrecords⟩ := hcall
    refine exists_forMsgs (hg _) fun r hr => ?_
    obtain ⟨record, rfl, hrecord⟩ := hrecords r hr
    exact exists_replayPlan hrecord

theorem exists_produce {calls : List Call} (hg : ∀ c, (g.contractAddress c).isSome)
    (hcalls : ∀ call ∈ calls, call.Admissible n atoi) :
    ∃ msgs g', produce n atoi calls g = .ok (msgs, g') := by
  induction calls generalizing g with
  | nil => exact ⟨[], g, rfl⟩
  | cons call calls ih =>
    obtain ⟨batch, g₁, hbatch, hg₁⟩ := exists_build hg (hcalls call List.mem_cons_self)
    obtain ⟨rest, g', hrest⟩ := ih (hg₁ ▸ hg) fun c hc => hcalls c (List.mem_cons_of_mem call hc)
    exact ⟨batch ++ rest, g', by simp only [produce, hbatch, ok_bind, hrest]⟩

end Total

/-- **The nonces of an account.** Any calls of the builders that stay within the list of accounts
produce messages, if the contracts are deployed and the files can be opened. In whatever calls
produce, from whatever map, the messages of account `i` have the nonces that come one after the
other as `uint64` numbers, from the one in the map or zero. They do not repeat in `2 ^ 64` messages,
and they are consecutive numbers as long as those fit. -/
theorem nonces_consecutive (n : ℕ) (atoi : String → Option ℤ) (calls : List Call) (g : Globals A) :
    ((∀ c, (g.contractAddress c).isSome) → (∀ call ∈ calls, call.Admissible n atoi) →
      ∃ msgs g', produce n atoi calls g = .ok (msgs, g')) ∧
    ∀ msgs g', produce n atoi calls g = .ok (msgs, g') → ∀ i,
      noncesOf i msgs =
        (List.range (noncesOf i msgs).length).map (fun j => (g.next i + j) % 2 ^ 64) ∧
      ((noncesOf i msgs).length ≤ 2 ^ 64 → (noncesOf i msgs).Nodup) ∧
      (g.next i + (noncesOf i msgs).length ≤ 2 ^ 64 →
        noncesOf i msgs = List.range' (g.next i) (noncesOf i msgs).length) := by
  refine ⟨exists_produce, fun msgs g' h i => ?_⟩
  have hnext : g.next i < 2 ^ 64 := UInt64.toNat_lt _
  have hnonces : noncesOf i msgs = List.iterate (succU 64) (g.next i) (noncesOf i msgs).length :=
    (issued_of_produce h).numbersOf_eq i
  refine ⟨?_, fun hlen => ?_, fun hlen => ?_⟩
  · exact hnonces.trans (iterate_succU_eq_map hnext _)
  · rw [hnonces]
    exact nodup_iterate_succU hnext hlen
  · exact hnonces.trans (iterate_succU_eq_range' hlen)

/-- Two accounts, of which the first has deployed the contract. There is a batch of breedings and
then a replay, in which the second record is skipped. -/
theorem nonces_two_batches : ∃ (msgs : List (TestMessage Unit)) (g' : Globals Unit),
    produce 2 (fun s => if s = "0" then some 0 else none)
      [.kitty (fun i _ => i) 2, .replay (some [some ["0", "0"], some ["from", "0"]])]
      ⟨fun i => if i = 0 then some 1 else none, fun _ => some ()⟩ = .ok (msgs, g') ∧
    msgs.map TestMessage.evmSigner = [0, 1, 0] ∧
    noncesOf 0 msgs = List.range' 1 2 ∧ noncesOf 1 msgs = List.range' 0 1 := by
  obtain ⟨⟨msgs, g'⟩, h, hsigners, h0, h1⟩ : ∃ r,
      produce 2 (fun s => if s = "0" then some 0 else none)
        [.kitty (fun i _ => i) 2, .replay (some [some ["0", "0"], some ["from", "0"]])]
        ⟨fun i => if i = 0 then some 1 else none, fun _ => some ()⟩ = .ok r ∧
      r.1.map TestMessage.evmSigner = [0, 1, 0] ∧ (noncesOf 0 r.1).length = 2 ∧
      (noncesOf 1 r.1).length = 1 :=
    ⟨_, rfl, rfl, rfl, rfl⟩
  have hnonces := (nonces_consecutive _ _ _ _).2 msgs g' h
  refine ⟨msgs, g', h, hsigners, ?_, ?_⟩
  · have h0' := (hnonces 0).2.2
    rw [h0] at h0'
    exact h0' (by decide)
  · have h1' := (hnonces 1).2.2
    rw [h1] at h1'
    exact h1' (by decide)

/-- An account whose entry is the last `uint64` number signs two messages. The second has the nonce
zero, and not the next number. -/
theorem nonces_start_over : ∃ (msgs : List (TestMessage Unit)) (g' : Globals Unit),
    produce 1 (fun _ => none) [.kitty (fun _ _ => 0) 2]
      ⟨fun _ => some 18446744073709551615, fun _ => some ()⟩ = .ok (msgs, g') ∧
    msgs.map TestMessage.evmSigner = [0, 0] ∧
    noncesOf 0 msgs = [18446744073709551615, 0] ∧
    noncesOf 0 msgs ≠ List.range' 18446744073709551615 2 := by
  refine ⟨_, _, rfl, rfl, rfl, ?_⟩
  decide

end Messages

end Sei

end RelayContracts
