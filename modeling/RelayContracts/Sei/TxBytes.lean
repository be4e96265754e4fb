import RelayContracts.SequenceNumbers

/-!
# Signing the transactions of a Sei block

`toTxBytes` turns a list of messages into the transactions of a block. A message for the EVM has
been signed before and is only wrapped. Any other message is signed here, with the key of the test
account that is its signer, and with the account number and the sequence that the account has.

The loop carries the key, the account and its index from one message to the next. The account is a
copy of the stored one, and its sequence is moved on after a transaction. But the search for the
signer gets a new copy whenever it finds it, so that the sequence that was moved on is never used:
all transactions of an account have the sequence that is stored (`sequences_gapless_iff`).

What belongs to the SDK is in `Env`, and what it can fail at is an option there. Addresses, keys and
signatures are byte strings, and the sign mode is the default one throughout.

## Main definitions

* `search`, `signTx`, `makeTx`, `toTxs`, `toTxBytes`
* `Gapless` — the transactions of each account carry consecutive sequences from the stored one
-/

namespace RelayContracts

namespace Sei

namespace TxBytes

open SequenceNumbers

/-- `[]byte`. -/
abbrev Bytes := List UInt8

/-- Why `toTxBytes` panicked. -/
inductive Panic where
  /-- An index was out of the range of a slice. -/
  | indexOutOfRange
  /-- A method of a `nil` account was called. -/
  | nilDereference
  /-- `panic(err)`. -/
  | err
  deriving DecidableEq, Repr

/-- `TestAcct`. -/
structure TestAcct where
  /-- `AccountAddress`. -/
  accountAddress : Bytes
  /-- `PrivateKey`. -/
  privateKey : Bytes
  deriving DecidableEq, Repr

/-- An account of the `AccountKeeper`. -/
structure Account where
  /-- `GetAccountNumber()`. -/
  accountNumber : UInt64
  /-- `GetSequence()`. -/
  sequence : UInt64
  deriving DecidableEq, Repr

/-- `TestMessage`, with messages of type `M`. -/
structure TestMessage (M : Type) where
  /-- `Msg`. -/
  msg : M
  /-- `IsEVM`. -/
  isEVM : Bool
  deriving DecidableEq, Repr

/-- `signing.SignatureV2`. -/
structure SignatureV2 where
  /-- `PubKey`. -/
  pubKey : Bytes
  /-- `Data.Signature`. -/
  signature : Option Bytes
  /-- `Sequence`. -/
  sequence : UInt64
  deriving DecidableEq, Repr

/-- `authsigning.SignerData`. -/
structure SignerData where
  /-- `ChainID`. -/
  chainID : String
  /-- `Sequence`. -/
  sequence : UInt64
  /-- `AccountNumber`. -/
  accountNumber : UInt64
  deriving DecidableEq, Repr

/-- A transaction in its builder. -/
structure Tx where
  /-- `Body.Messages`. -/
  message : Bytes
  /-- `AuthInfo.Fee.Amount`, in `usei`. -/
  amount : ℕ
  /-- `AuthInfo.Fee.GasLimit`. -/
  gasLimit : ℕ
  /-- `AuthInfo.Fee.Payer`. -/
  payer : String
  /-- `AuthInfo.Fee.Granter`. -/
  granter : String
  /-- What `SetSignatures` has set. -/
  signatures : Option SignatureV2
  deriving DecidableEq, Repr

/-- What `toTxBytes` calls. -/
structure Env (M : Type) where
  /-- `AccountKeeper.GetAccount(Ctx, address)`: a fresh copy of the stored account. -/
  getAccount : Bytes → Option Account
  /-- `Ctx.ChainID()`. -/
  chainID : String
  /-- `address.String()`. -/
  addressString : Bytes → String
  /-- `m.GetSigners()`. -/
  getSigners : M → List Bytes
  /-- `codectypes.NewAnyWithValue(m)`. -/
  newAnyWithValue : M → Option Bytes
  /-- `priv.PubKey()`. -/
  pubKey : Bytes → Bytes
  /-- `tBuilder.SetSignatures(sig)`. -/
  setSignatures : SignatureV2 → Tx → Option Tx
  /-- Where it does not fail, it sets the signatures and nothing else. -/
  setSignatures_eq : ∀ sig tx tx', setSignatures sig tx = some tx' →
    tx' = { tx with signatures := some sig }
  /-- The signature that `SignWithPrivKey` computes, of a transaction with a private key. -/
  sign : SignerData → Tx → (priv : Bytes) → Option Bytes
  /-- `tc.TxEncoder()`. -/
  encode : Tx → Option Bytes

/-- What the loop carries from one message to the next. -/
structure Carried where
  /-- `priv`. -/
  priv : Bytes
  /-- `acct`. -/
  acct : Option Account
  /-- `acc_idx`. -/
  accIdx : ℕ
  deriving DecidableEq, Repr

/-- A transaction of the result, with the message it was made for. -/
structure Entry (M : Type) where
  /-- The message. -/
  message : TestMessage M
  /-- The transaction that was encoded. -/
  tx : Tx
  /-- What was appended to `txs`. -/
  bytes : Bytes
  deriving DecidableEq, Repr

variable {M : Type} (env : Env M)

/-! ### The functions -/

/-- `if err != nil { panic(err) }`. -/
def orPanic {α : Type} (f : Panic) : Option α → Except Panic α
  | some a => .ok a
  | none => .error f

/-- The inner loop: find the signer among the accounts, from index `i` on. -/
def search (signer : Bytes) : List TestAcct → (i : ℕ) → Carried → Carried
  | [], _, c => c
  | t :: ts, i, c =>
    if signer = t.accountAddress then
      search signer ts (i + 1) ⟨t.privateKey, env.getAccount t.accountAddress, i⟩
    else search signer ts (i + 1) c

/-- `tx.WrapTx(..)` of the message. -/
def wrapTx (accounts : List TestAcct) (accIdx : ℕ) (m : M) : Except Panic Tx := do
  let a ← orPanic .err (env.newAnyWithValue m)
  let payer ← orPanic .indexOutOfRange accounts[accIdx]?
  .ok ⟨a, 10000000000, 10000000000, env.addressString payer.accountAddress,
    env.addressString payer.accountAddress, none⟩

/-- From the first `SetSignatures` to the second. -/
def signTx (priv : Bytes) (acct : Account) (tx : Tx) : Except Panic Tx := do
  let tx ← orPanic .err (env.setSignatures ⟨env.pubKey priv, none, acct.sequence⟩ tx)
  let signature ←
    orPanic .err (env.sign ⟨env.chainID, acct.sequence, acct.accountNumber⟩ tx priv)
  orPanic .err (env.setSignatures ⟨env.pubKey priv, some signature, acct.sequence⟩ tx)

/-- One round of the loop. -/
def makeTx (accounts : List TestAcct) (tm : TestMessage M) (c : Carried) :
    Except Panic (Entry M × Carried) :=
  if tm.isEVM then do
    let tx ← wrapTx env accounts c.accIdx tm.msg
    let b ← orPanic .err (env.encode tx)
    .ok (⟨tm, tx, b⟩, c)
  else do
    let signer ← orPanic .indexOutOfRange (env.getSigners tm.msg).head?
    let c := search env signer accounts 0 c
    let tx ← wrapTx env accounts c.accIdx tm.msg
    let acct ← orPanic .nilDereference c.acct
    let tx ← signTx env c.priv acct tx
    let b ← orPanic .err (env.encode tx)
    .ok (⟨tm, tx, b⟩, { c with acct := some { acct with sequence := acct.sequence + 1 } })

/-- The loop. -/
def makeTxs (accounts : List TestAcct) :
    List (TestMessage M) → Carried → Except Panic (List (Entry M))
  | [], _ => .ok []
  | tm :: msgs, c => do
    let (e, c) ← makeTx env accounts tm c
    let es ← makeTxs accounts msgs c
    .ok (e :: es)

/-- `toTxBytes(testCtx, msgs)`, with the transactions. -/
def toTxs (accounts : List TestAcct) (msgs : List (TestMessage M)) :
    Except Panic (List (Entry M)) := do
  let first ← orPanic .indexOutOfRange accounts[0]?
  makeTxs env accounts msgs ⟨first.privateKey, env.getAccount first.accountAddress, 0⟩

/-- `toTxBytes(testCtx, msgs)`. -/
def toTxBytes (accounts : List TestAcct) (msgs : List (TestMessage M)) :
    Except Panic (List Bytes) := do
  let es ← toTxs env accounts msgs
  .ok (es.map Entry.bytes)

/-! ### The signer of a message -/

/-- The signer of a message that is signed here. -/
def signer? (tm : TestMessage M) : Option Bytes :=
  if tm.isEVM then none else (env.getSigners tm.msg).head?

/-- The sequence that a transaction carries. -/
def Tx.sequence? (tx : Tx) : Option UInt64 := tx.signatures.map SignatureV2.sequence

/-- A transaction was signed with a private key, an account number and a sequence. -/
def SignedAs (priv : Bytes) (accountNumber sequence : UInt64) (tx : Tx) : Prop :=
  ∃ signature, tx.signatures = some ⟨env.pubKey priv, some signature, sequence⟩ ∧
    env.sign ⟨env.chainID, sequence, accountNumber⟩
      { tx with signatures := some ⟨env.pubKey priv, none, sequence⟩ } priv = some signature

/-- The sequences of a signer, in the order of the transactions. -/
def sequencesOf (a : Bytes) (es : List (Entry M)) : List (Option UInt64) :=
  numbersOf (fun e => signer? env e.message) (fun e => e.tx.sequence?) (some a) es

/-- How many of the messages an account signs. -/
def signedBy (a : Bytes) (msgs : List (TestMessage M)) : ℕ :=
  msgs.countP fun tm => signer? env tm = some a

/-- The transactions of each test account carry consecutive sequences, from the stored one on. -/
def Gapless (accounts : List TestAcct) (es : List (Entry M)) : Prop :=
  ∀ t ∈ accounts, ∀ acct, env.getAccount t.accountAddress = some acct →
    sequencesOf env t.accountAddress es =
      (List.iterate (· + 1) acct.sequence (sequencesOf env t.accountAddress es).length).map some

/-- The messages that are signed here are signed by test accounts. -/
def SignersKnown (accounts : List TestAcct) (msgs : List (TestMessage M)) : Prop :=
  ∀ tm ∈ msgs, tm.isEVM = false → ∃ t ∈ accounts, signer? env tm = some t.accountAddress

/-- The SDK does not fail: the test accounts are stored, and the messages can be packed, signed and
encoded. -/
structure Works (accounts : List TestAcct) (msgs : List (TestMessage M)) : Prop where
  /-- The accounts are stored. -/
  stored : ∀ t ∈ accounts, ∃ acct, env.getAccount t.accountAddress = some acct
  /-- The messages can be packed. -/
  newAnyWithValue : ∀ tm ∈ msgs, ∃ a, env.newAnyWithValue tm.msg = some a
  /-- Signatures can be set. -/
  setSignatures : ∀ t ∈ accounts, ∀ signature sequence tx, ∃ tx',
    env.setSignatures ⟨env.pubKey t.privateKey, signature, sequence⟩ tx = some tx'
  /-- Transactions can be signed. -/
  sign : ∀ data tx, ∀ t ∈ accounts, ∃ signature, env.sign data tx t.privateKey = some signature
  /-- Transactions can be encoded. -/
  encode : ∀ tx, ∃ b, env.encode tx = some b

section Specs

variable {env} {accounts : List TestAcct} {msgs : List (TestMessage M)} {tm : TestMessage M}
  {es : List (Entry M)} {e : Entry M} {c c' : Carried} {a : Bytes}

theorem orPanic_eq_ok {α : Type} {f : Panic} {x : Option α} {v : α} :
    orPanic f x = .ok v ↔ x = some v := by
  cases x with
  | none => simp [orPanic]
  | some w => simp [orPanic]

theorem signer?_eq_some : signer? env tm = some a ↔
    tm.isEVM = false ∧ (env.getSigners tm.msg).head? = some a := by
  rw [signer?]
  cases tm.isEVM <;> simp

/-- The search leaves the carried account alone if the signer is not there. Otherwise it has the key
of the signer and a fresh copy of its account, whatever was carried. -/
theorem search_cases (env : Env M) (a : Bytes) (ts : List TestAcct) (i : ℕ) (c : Carried) :
    (search env a ts i c = c ∧ ∀ t ∈ ts, a ≠ t.accountAddress) ∨
      ∃ j t, ts[j]? = some t ∧ t.accountAddress = a ∧
        search env a ts i c = ⟨t.privateKey, env.getAccount a, i + j⟩ := by
  induction ts generalizing i c with
  | nil => exact .inl ⟨rfl, fun t ht => absurd ht List.not_mem_nil⟩
  | cons t ts ih =>
    rw [search]
    by_cases ha : a = t.accountAddress
    · subst ha
      rw [if_pos rfl]
      rcases ih (i + 1) ⟨t.privateKey, env.getAccount t.accountAddress, i⟩ with
        ⟨heq, -⟩ | ⟨j, t', ht', haddr, heq⟩
      · exact .inr ⟨0, t, rfl, rfl, heq⟩
      · exact .inr ⟨j + 1, t', ht', haddr, by rw [heq, Nat.add_assoc, Nat.add_comm 1]⟩
    · rw [if_neg ha]
      rcases ih (i + 1) c with ⟨heq, hnone⟩ | ⟨j, t', ht', haddr, heq⟩
      · exact .inl ⟨heq, List.forall_mem_cons.mpr ⟨ha, hnone⟩⟩
      · exact .inr ⟨j + 1, t', ht', haddr, by rw [heq, Nat.add_assoc, Nat.add_comm 1]⟩

/-- The search finds a test account. -/
theorem exists_search (env : Env M) {t : TestAcct} (ht : t ∈ accounts) (c : Carried) :
    ∃ i, ∃ t' ∈ accounts, accounts[i]? = some t' ∧ t'.accountAddress = t.accountAddress ∧
      search env t.accountAddress accounts 0 c =
        ⟨t'.privateKey, env.getAccount t.accountAddress, i⟩ := by
  rcases search_cases env t.accountAddress accounts 0 c with ⟨-, hnone⟩ | ⟨i, t', ht', haddr, heq⟩
  · exact absurd rfl (hnone t ht)
  · exact ⟨i, t', List.mem_of_getElem? ht', ht', haddr, by rw [heq, Nat.zero_add]⟩

theorem signedAs_of_signTx {priv : Bytes} {acct : Account} {tx tx' : Tx}
    (h : signTx env priv acct tx = .ok tx') :
    SignedAs env priv acct.accountNumber acct.sequence tx' := by
  obtain ⟨tx₁, h₁, h⟩ := exists_of_bind_eq_ok h
  obtain ⟨signature, hsign, h⟩ := exists_of_bind_eq_ok h
  obtain rfl := env.setSignatures_eq _ _ _ (orPanic_eq_ok.mp h₁)
  obtain rfl := env.setSignatures_eq _ _ _ (orPanic_eq_ok.mp h)
  exact ⟨signature, rfl, orPanic_eq_ok.mp hsign⟩

/-- **The step lemma.** A transaction that is signed for a test account is signed with its key and
its account number, and with the sequence that is stored. -/
theorem makeTx_spec (h : makeTx env accounts tm c = .ok (e, c')) :
    e.message = tm ∧ env.encode e.tx = some e.bytes ∧
      ∀ t ∈ accounts, signer? env tm = some t.accountAddress →
        ∃ t' ∈ accounts, t'.accountAddress = t.accountAddress ∧
          ∃ acct, env.getAccount t.accountAddress = some acct ∧
            SignedAs env t'.privateKey acct.accountNumber acct.sequence e.tx := by
  rw [makeTx] at h
  split at h
  · rename_i hevm
    obtain ⟨tx, -, h⟩ := exists_of_bind_eq_ok h
    obtain ⟨b, hb, h⟩ := exists_of_bind_eq_ok h
    cases h
    refine ⟨rfl, orPanic_eq_ok.mp hb, fun t _ hsigner => ?_⟩
    rw [signer?_eq_some, hevm] at hsigner
    cases hsigner.1
  · obtain ⟨signer, hsigner, h⟩ := exists_of_bind_eq_ok h
    obtain ⟨tx, -, h⟩ := exists_of_bind_eq_ok h
    obtain ⟨acct, hacct, h⟩ := exists_of_bind_eq_ok h
    obtain ⟨tx', hsign, h⟩ := exists_of_bind_eq_ok h
    obtain ⟨b, hb, h⟩ := exists_of_bind_eq_ok h
    cases h
    refine ⟨rfl, orPanic_eq_ok.mp hb, fun t ht hsome => ?_⟩
    have heq := (signer?_eq_some.mp hsome).2
    obtain rfl := Option.some_inj.mp ((orPanic_eq_ok.mp hsigner).symm.trans heq)
    obtain ⟨i, t', ht', -, haddr, hfound⟩ := exists_search env ht c
    rw [hfound] at hacct hsign
    exact ⟨t', ht', haddr, acct, orPanic_eq_ok.mp hacct, signedAs_of_signTx hsign⟩

/-- The run lemma. -/
theorem makeTxs_spec (h : makeTxs env accounts msgs c = .ok es) :
    es.map Entry.message = msgs ∧ ∀ e ∈ es, env.encode e.tx = some e.bytes ∧
      ∀ t ∈ accounts, signer? env e.message = some t.accountAddress →
        ∃ t' ∈ accounts, t'.accountAddress = t.accountAddress ∧
          ∃ acct, env.getAccount t.accountAddress = some acct ∧
            SignedAs env t'.privateKey acct.accountNumber acct.sequence e.tx := by
  induction msgs generalizing c es with
  | nil =>
    cases h
    exact ⟨rfl, fun e he => absurd he List.not_mem_nil⟩
  | cons tm msgs ih =>
    obtain ⟨⟨e, c'⟩, hmake, h⟩ := exists_of_bind_eq_ok h
    obtain ⟨es', hes', h⟩ := exists_of_bind_eq_ok h
    cases h
    obtain ⟨rfl, hencode, hsigned⟩ := makeTx_spec hmake
    obtain ⟨hmessages, hall⟩ := ih hes'
    exact ⟨by rw [List.map_cons, hmessages], List.forall_mem_cons.mpr ⟨⟨hencode, hsigned⟩, hall⟩⟩

/-- The entries are for the messages, so that an account has as many of them as it signs. -/
theorem length_sequencesOf (hmessages : es.map Entry.message = msgs) (a : Bytes) :
    (sequencesOf env a es).length = signedBy env a msgs := by
  rw [sequencesOf, numbersOf, List.length_map, signedBy, ← hmessages, List.countP_map,
    List.countP_eq_length_filter]
  rfl

/-- The sequence that is stored, again and again, is consecutive if it is there once at most. -/
theorem replicate_eq_iterate_iff (q : UInt64) (n : ℕ) :
    List.replicate n (some q) = (List.iterate (· + 1) q n).map some ↔ n ≤ 1 := by
  match n with
  | 0 => simp
  | 1 => simp
  | n + 2 => simp [List.replicate_succ, List.iterate]

/-! ### The SDK does not fail -/

theorem exists_wrapTx {i : ℕ} (hi : i < accounts.length) {m : M} {v : Bytes}
    (hv : env.newAnyWithValue m = some v) : ∃ tx, wrapTx env accounts i m = .ok tx := by
  have hpayer := orPanic_eq_ok (f := .indexOutOfRange).mpr (List.getElem?_eq_getElem hi)
  rw [wrapTx, orPanic_eq_ok.mpr hv, ok_bind, hpayer, ok_bind]
  exact ⟨_, rfl⟩

theorem exists_signTx (hworks : Works env accounts msgs) {t : TestAcct} (ht : t ∈ accounts)
    (acct : Account) (tx : Tx) : ∃ tx', signTx env t.privateKey acct tx = .ok tx' := by
  obtain ⟨tx₁, htx₁⟩ := hworks.setSignatures t ht none acct.sequence tx
  obtain ⟨signature, hsign⟩ :=
    hworks.sign ⟨env.chainID, acct.sequence, acct.accountNumber⟩ tx₁ t ht
  obtain ⟨tx', htx'⟩ := hworks.setSignatures t ht (some signature) acct.sequence tx₁
  rw [signTx, orPanic_eq_ok.mpr htx₁, ok_bind, orPanic_eq_ok.mpr hsign, ok_bind,
    orPanic_eq_ok.mpr htx']
  exact ⟨tx', rfl⟩

theorem exists_makeTx (hworks : Works env accounts msgs) (hknown : SignersKnown env accounts msgs)
    (htm : tm ∈ msgs) (hc : c.accIdx < accounts.length) :
    ∃ e c', makeTx env accounts tm c = .ok (e, c') ∧ c'.accIdx < accounts.length := by
  obtain ⟨v, hv⟩ := hworks.newAnyWithValue tm htm
  rw [makeTx]
  cases hevm : tm.isEVM with
  | true =>
    obtain ⟨tx, htx⟩ := exists_wrapTx hc hv
    obtain ⟨b, hb⟩ := hworks.encode tx
    refine ⟨⟨tm, tx, b⟩, c, ?_, hc⟩
    rw [if_pos rfl, htx, ok_bind, orPanic_eq_ok.mpr hb, ok_bind]
  | false =>
    obtain ⟨t, ht, hsigner⟩ := hknown tm htm hevm
    obtain ⟨i, t', ht', hi, -, hfound⟩ := exists_search env ht c
    have hi : i < accounts.length := (List.getElem?_eq_some_iff.mp hi).1
    obtain ⟨acct, hacct⟩ := hworks.stored t ht
    obtain ⟨tx, htx⟩ := exists_wrapTx hi hv
    obtain ⟨tx', htx'⟩ := exists_signTx hworks ht' acct tx
    obtain ⟨b, hb⟩ := hworks.encode tx'
    rw [if_neg (by simp), orPanic_eq_ok.mpr (signer?_eq_some.mp hsigner).2, ok_bind]
    simp only [hfound, htx, ok_bind, orPanic_eq_ok.mpr hacct, htx', orPanic_eq_ok.mpr hb]
    exact ⟨_, _, rfl, hi⟩

theorem exists_makeTxs (hworks : Works env accounts msgs) (hknown : SignersKnown env accounts msgs)
    {msgs' : List (TestMessage M)} (hsub : ∀ tm ∈ msgs', tm ∈ msgs)
    (hc : c.accIdx < accounts.length) : ∃ es, makeTxs env accounts msgs' c = .ok es := by
  induction msgs' generalizing c with
  | nil => exact ⟨[], rfl⟩
  | cons tm msgs' ih =>
    obtain ⟨htm, hsub⟩ := List.forall_mem_cons.mp hsub
    obtain ⟨e, c', hmake, hc'⟩ := exists_makeTx hworks hknown htm hc
    obtain ⟨es, hes⟩ := ih hsub hc'
    refine ⟨e :: es, ?_⟩
    rw [makeTxs, hmake, ok_bind]
    simp only [hes, ok_bind]

end Specs

/-! ### The sequences -/

section Sequences

variable {env} {accounts : List TestAcct} {msgs : List (TestMessage M)} {es : List (Entry M)}

theorem makeTxs_of_toTxs (h : toTxs env accounts msgs = .ok es) :
    ∃ c, makeTxs env accounts msgs c = .ok es := by
  obtain ⟨first, -, h⟩ := exists_of_bind_eq_ok h
  exact ⟨_, h⟩

/-- All transactions of a test account carry the sequence that is stored. -/
theorem sequencesOf_eq_replicate (h : toTxs env accounts msgs = .ok es) {t : TestAcct}
    (ht : t ∈ accounts) {acct : Account} (hacct : env.getAccount t.accountAddress = some acct) :
    sequencesOf env t.accountAddress es =
      List.replicate (signedBy env t.accountAddress msgs) (some acct.sequence) := by
  obtain ⟨c, h⟩ := makeTxs_of_toTxs h
  obtain ⟨hmessages, hall⟩ := makeTxs_spec h
  refine List.eq_replicate_iff.mpr ⟨length_sequencesOf hmessages _, fun x hx => ?_⟩
  obtain ⟨e, he, hsigner, rfl⟩ := mem_numbersOf.mp hx
  obtain ⟨t', -, -, acct', hacct', signature, hsignatures, -⟩ := (hall e he).2 t ht hsigner
  cases hacct.symm.trans hacct'
  rw [Tx.sequence?, hsignatures]
  rfl

/-- An account that signs something is stored. -/
theorem exists_account (h : toTxs env accounts msgs = .ok es) {t : TestAcct} (ht : t ∈ accounts)
    (hpos : 0 < signedBy env t.accountAddress msgs) :
    ∃ acct, env.getAccount t.accountAddress = some acct := by
  obtain ⟨c, h⟩ := makeTxs_of_toTxs h
  obtain ⟨hmessages, hall⟩ := makeTxs_spec h
  obtain ⟨tm, htm, hsigner⟩ := List.countP_pos_iff.mp hpos
  rw [← hmessages] at htm
  obtain ⟨e, he, rfl⟩ := List.mem_map.mp htm
  obtain ⟨t', -, -, acct, hacct, -⟩ := (hall e he).2 t ht (of_decide_eq_true hsigner)
  exact ⟨acct, hacct⟩

end Sequences

/-- **When the sequences are gapless.** For any messages whose signers are test accounts: if the SDK
does not fail, the transactions are made. Those that are made are for the messages, in their order,
and each that is signed here is signed with the key and the account number of its signer. But the
sequences of the accounts are consecutive, from the stored ones on, if and only if no account signs
more than one message. -/
theorem sequences_gapless_iff (accounts : List TestAcct) (msgs : List (TestMessage M))
    (hknown : SignersKnown env accounts msgs) :
    (accounts ≠ [] → Works env accounts msgs → ∃ es, toTxs env accounts msgs = .ok es) ∧
    ∀ es, toTxs env accounts msgs = .ok es →
      toTxBytes env accounts msgs = .ok (es.map Entry.bytes) ∧
      es.map Entry.message = msgs ∧
      (∀ e ∈ es, env.encode e.tx = some e.bytes) ∧
      (∀ e ∈ es, e.message.isEVM = false → ∃ t ∈ accounts, ∃ acct,
        signer? env e.message = some t.accountAddress ∧
        env.getAccount t.accountAddress = some acct ∧
        SignedAs env t.privateKey acct.accountNumber acct.sequence e.tx) ∧
      (Gapless env accounts es ↔ ∀ t ∈ accounts, signedBy env t.accountAddress msgs ≤ 1) := by
  refine ⟨fun hne hworks => ?_, fun es h => ?_⟩
  · obtain ⟨t, ts, rfl⟩ := List.exists_cons_of_ne_nil hne
    obtain ⟨es, hes⟩ := exists_makeTxs hworks hknown (fun _ htm => htm)
      (c := ⟨t.privateKey, env.getAccount t.accountAddress, 0⟩) (Nat.zero_lt_succ _)
    exact ⟨es, hes⟩
  · obtain ⟨c, hmake⟩ := makeTxs_of_toTxs h
    obtain ⟨hmessages, hall⟩ := makeTxs_spec hmake
    refine ⟨by rw [toTxBytes, h, ok_bind], hmessages, fun e he => (hall e he).1,
      fun e he hevm => ?_, fun hgapless t ht => ?_, fun hone t ht acct hacct => ?_⟩
    · have hmem : e.message ∈ msgs := hmessages ▸ List.mem_map_of_mem he
      obtain ⟨t, ht, hsigner⟩ := hknown e.message hmem hevm
      obtain ⟨t', ht', haddr, acct, hacct, hsigned⟩ := (hall e he).2 t ht hsigner
      exact ⟨t', ht', acct, haddr ▸ hsigner, haddr ▸ hacct, hsigned⟩
    · by_contra hmany
      obtain ⟨acct, hacct⟩ := exists_account h ht (by omega)
      have hsame := hgapless t ht acct hacct
      rw [sequencesOf_eq_replicate h ht hacct, List.length_replicate,
        replicate_eq_iterate_iff] at hsame
      exact hmany hsame
    · rw [sequencesOf_eq_replicate h ht hacct, List.length_replicate, replicate_eq_iterate_iff]
      exact hone t ht

/-- An SDK with one stored account, which signs everything. -/
def oneAccount : Env Unit where
  getAccount _ := some ⟨3, 5⟩
  chainID := "sei-test"
  addressString _ := "sei1"
  getSigners _ := [[7]]
  newAnyWithValue _ := some []
  pubKey priv := priv
  setSignatures sig tx := some { tx with signatures := some sig }
  setSignatures_eq _ _ _ h := (Option.some.inj h).symm
  sign data _ _ := some [data.sequence.toUInt8]
  encode tx := some tx.message

/-- Two messages of one account, with a message for the EVM in between: both transactions carry the
sequence `5`. -/
theorem sequence_repeated : ∃ es,
    toTxs oneAccount [⟨[7], [1]⟩] [⟨(), false⟩, ⟨(), true⟩, ⟨(), false⟩] = .ok es ∧
    sequencesOf oneAccount [7] es = [some 5, some 5] ∧
    ¬ Gapless oneAccount [⟨[7], [1]⟩] es := by
  obtain ⟨es, hes, hsequences⟩ : ∃ es,
      toTxs oneAccount [⟨[7], [1]⟩] [⟨(), false⟩, ⟨(), true⟩, ⟨(), false⟩] = .ok es ∧
      sequencesOf oneAccount [7] es = [some 5, some 5] := ⟨_, rfl, by decide⟩
  refine ⟨es, hes, hsequences, fun hgapless => ?_⟩
  have h := hgapless ⟨[7], [1]⟩ (List.mem_singleton_self _) ⟨3, 5⟩ rfl
  rw [hsequences] at h
  exact absurd h (by decide)

/-- One message of the account, after a message for the EVM. -/
theorem sequences_gapless_one : ∃ es,
    toTxs oneAccount [⟨[7], [1]⟩] [⟨(), true⟩, ⟨(), false⟩] = .ok es ∧
    Gapless oneAccount [⟨[7], [1]⟩] es := by
  have hknown : SignersKnown oneAccount [⟨[7], [1]⟩] [⟨(), true⟩, ⟨(), false⟩] := by
    intro tm _ hevm
    exact ⟨_, List.mem_singleton_self _, signer?_eq_some.mpr ⟨hevm, rfl⟩⟩
  obtain ⟨es, hes⟩ : ∃ es, toTxs oneAccount [⟨[7], [1]⟩] [⟨(), true⟩, ⟨(), false⟩] = .ok es :=
    ⟨_, rfl⟩
  obtain ⟨-, -, -, -, hiff⟩ := (sequences_gapless_iff oneAccount _ _ hknown).2 es hes
  exact ⟨es, hes, hiff.mpr (by decide)⟩

end TxBytes

end Sei

end RelayContracts
