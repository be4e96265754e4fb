import RelayContracts.Preda.Ballot
import Mathlib.Algebra.BigOperators.Fin
import Mathlib.Algebra.Order.BigOperators.Group.List
import Mathlib.Algebra.Order.Group.Nat
import Mathlib.Algebra.BigOperators.Ring.Finset
import Mathlib.Data.Fintype.BigOperators

/-!
# What a history of the Ballot has done

The theorems about the Ballot speak of what happened: which votes were accepted, how often a shard
was asked for its array, how many arrays were gathered. These are functions of the history, and
this file relates them to what is in flight. None of it depends on the arithmetic, and all of it
holds along every run from a state with nothing in flight, whatever is interleaved with what.

The relays of a finalization form a pipeline, `finalizeGlobal` to `finalizeShard` to
`finalizeGather`, and each stage balances: what went in has come out or is in flight.

## Main results

* `resets_add_inFlight`, `snapshots_add_inFlight`, `gathers_add_inFlight` — the three stages
* `opens_add_inFlight` — the same for `init`
-/

namespace RelayContracts

namespace Preda

namespace Ballot

open RelayMachine

variable {A : Type} {k : ℕ}

/-- The events of a run of the Ballot, latest first. -/
abbrev History (A : Type) (k : ℕ) := List (Event (Call A) (Relay k) (Option Bool) Fault)

/-! ### Counting events -/

/-- A `finalize` call that passed its assertion. -/
def isFinalize : Event (Call A) (Relay k) (Option Bool) Fault → Bool
  | .call (.finalize _) (.ok _) => true
  | _ => false

/-- An `init` call that passed its assertion. -/
def isInit : Event (Call A) (Relay k) (Option Bool) Fault → Bool
  | .call (.init _ _) (.ok _) => true
  | _ => false

/-- The global block of an `init` was executed. -/
def isOpen : Event (Call A) (Relay k) (Option Bool) Fault → Bool
  | .deliver (.initGlobal _) _ => true
  | _ => false

/-- The global block of a `finalize` was executed: the gather counter was reset. -/
def isReset : Event (Call A) (Relay k) (Option Bool) Fault → Bool
  | .deliver .finalizeGlobal _ => true
  | _ => false

/-- The shard `s` was asked for its array. -/
def isSnapshot (s : Fin (2 ^ k)) : Event (Call A) (Relay k) (Option Bool) Fault → Bool
  | .deliver (.finalizeShard s') _ => s' = s
  | _ => false

/-- Some shard was asked for its array. -/
def isShard : Event (Call A) (Relay k) (Option Bool) Fault → Bool
  | .deliver (.finalizeShard _) _ => true
  | _ => false

/-- A shard's array was gathered. -/
def isGather : Event (Call A) (Relay k) (Option Bool) Fault → Bool
  | .deliver (.finalizeGather _) _ => true
  | _ => false

/-- The arrays sent, shard by shard. -/
theorem sum_countP_isSnapshot (h : History A k) :
    ∑ i, h.countP (isSnapshot i) = h.countP isShard := by
  induction h with
  | nil => simp
  | cons e h ih =>
    have he : ∑ i, (if isSnapshot i e then 1 else 0) = if isShard e then 1 else 0 := by
      cases e with
      | call k r => simp [isSnapshot, isShard]
      | deliver m r => cases m <;> simp [isSnapshot, isShard]
    simp only [List.countP_cons, Finset.sum_add_distrib, ih, he]

/-! ### The stages of a finalization -/

/-- The openings among the relays in flight. -/
def openings : Relay k → ℕ
  | .initGlobal _ => 1
  | _ => 0

section Stages

variable [DecidableEq A] {X : Chain A} {s₀ : State A X.shardOrder}
  {G : History A X.shardOrder → Config (State A X.shardOrder) (Relay X.shardOrder) →
    Event (Call A) (Relay X.shardOrder) (Option Bool) Fault → Prop}
  {h : History A X.shardOrder} {c : Config (State A X.shardOrder) (Relay X.shardOrder)}

/-- Each `init` that passed has been executed globally or is in flight. -/
theorem opens_add_inFlight (hr : (machine X).Run G ⟨s₀, 0⟩ h c) :
    c.carried openings + h.countP isOpen = h.countP isInit := by
  refine hr.staged _ isOpen isInit rfl (fun hk => ?_) (fun k _ => ?_) (fun hk => ?_)
    fun {_ m _} hk => ?_
  · cases called_of_ok hk <;> rfl
  · cases k <;> rfl
  · cases delivered_of_ok hk <;> simp [isOpen, isInit, openings, Function.comp_def]
  · cases m <;> rfl

/-- Each finalization started has reset the counter or is about to. -/
theorem resets_add_inFlight (hr : (machine X).Run G ⟨s₀, 0⟩ h c) :
    c.carried (fun | .finalizeGlobal => 1 | _ => 0) + h.countP isReset = h.countP isFinalize := by
  refine hr.staged _ isReset isFinalize rfl (fun hk => ?_) (fun k _ => ?_) (fun hk => ?_)
    fun {_ m _} hk => ?_
  · cases called_of_ok hk <;> rfl
  · cases k <;> rfl
  · cases delivered_of_ok hk <;> simp [isReset, isFinalize, Function.comp_def]
  · cases m <;> rfl

/-- Each reset has asked every shard once, or is about to. -/
theorem snapshots_add_inFlight (hr : (machine X).Run G ⟨s₀, 0⟩ h c) (i : Fin (2 ^ X.shardOrder)) :
    c.carried (fun | .finalizeShard j => if j = i then 1 else 0 | _ => 0)
      + h.countP (isSnapshot i) = h.countP isReset := by
  refine hr.staged _ (isSnapshot i) isReset rfl (fun hk => ?_) (fun k _ => ?_) (fun hk => ?_)
    fun {_ m _} hk => ?_
  · cases called_of_ok hk <;> rfl
  · cases k <;> rfl
  · cases delivered_of_ok hk <;>
      simp [isSnapshot, isReset, Function.comp_def, ← Fin.sum_univ_def]
  · cases m <;> first | rfl | cases hk

/-- Each array sent has been gathered or is in flight. -/
theorem gathers_add_inFlight (hr : (machine X).Run G ⟨s₀, 0⟩ h c) :
    c.carried (fun | .finalizeGather _ => 1 | _ => 0) + h.countP isGather = h.countP isShard := by
  refine hr.staged _ isGather isShard rfl (fun hk => ?_) (fun k _ => ?_) (fun hk => ?_)
    fun {_ m _} hk => ?_
  · cases called_of_ok hk <;> rfl
  · cases k <;> rfl
  · cases delivered_of_ok hk <;> simp [isGather, isShard, Function.comp_def]
  · cases m <;> first | rfl | cases hk

end Stages

end Ballot

end Preda

end RelayContracts
