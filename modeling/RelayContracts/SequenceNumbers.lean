import Mathlib.Data.List.Iterate
import Mathlib.Data.List.Nodup
import Mathlib.Data.Nat.ModEq
import Mathlib.Logic.Function.Basic
import RelayContracts.FixedWidth

/-!
# Sequence numbers

Messages that carry a number, where each sender counts for itself. `Issued` says that a list of
messages was numbered from a table of counters: each message has the number that the counter of its
sender shows, and moves that counter on. It says nothing about where the messages come from, so a
program that numbers messages in several places is taken apart with `Issued.append` first, and what
the numbers of one sender are is read off afterwards.

What comes after a number is a parameter. For a counter of a fixed width it is `succU`, which goes
around.

## Main definitions

* `numbersOf` — the numbers of one sender, in order
* `Issued` — the list was numbered from these counters, and left those

## Main results

* `Issued.numbersOf_eq` — the numbers of a sender are the iterates of its counter
* `iterate_succU_eq_range'` — which is a range, as long as the width allows for it
-/

namespace RelayContracts

namespace SequenceNumbers

variable {μ K ν : Type*} [DecidableEq K]

/-- The numbers of a sender, in order. -/
def numbersOf (sender : μ → K) (number : μ → ν) (k : K) (l : List μ) : List ν :=
  (l.filter fun m => sender m = k).map number

/-- `Issued sender number succ next l next'`: the messages of `l` were numbered in order from the
counters `next`, and `next'` are the counters after that. -/
inductive Issued (sender : μ → K) (number : μ → ν) (succ : ν → ν) :
    (K → ν) → List μ → (K → ν) → Prop
  /-- No message. -/
  | nil (next : K → ν) : Issued sender number succ next [] next
  /-- The first message has the number of its sender's counter. -/
  | cons {next next' : K → ν} {m : μ} {l : List μ} (hm : number m = next (sender m))
      (hl : Issued sender number succ
        (Function.update next (sender m) (succ (next (sender m)))) l next') :
      Issued sender number succ next (m :: l) next'

section Numbers

variable {sender : μ → K} {number : μ → ν} {succ : ν → ν} {a b c : K → ν} {l l' : List μ} {m : μ}
  {k : K}

theorem numbersOf_cons_self : numbersOf sender number (sender m) (m :: l) =
    number m :: numbersOf sender number (sender m) l := by
  simp [numbersOf]

theorem numbersOf_cons_of_ne (h : sender m ≠ k) :
    numbersOf sender number k (m :: l) = numbersOf sender number k l := by
  simp [numbersOf, h]

theorem mem_numbersOf {n : ν} :
    n ∈ numbersOf sender number k l ↔ ∃ m ∈ l, sender m = k ∧ number m = n := by
  simp [numbersOf, and_assoc]

theorem Issued.single (hm : number m = a (sender m)) : Issued sender number succ a [m]
    (Function.update a (sender m) (succ (a (sender m)))) :=
  .cons hm (.nil _)

/-- Two lists that were numbered one after the other. -/
theorem Issued.append (h : Issued sender number succ a l b)
    (h' : Issued sender number succ b l' c) : Issued sender number succ a (l ++ l') c := by
  induction h with
  | nil next => exact h'
  | cons hm _ ih => exact .cons hm (ih h')

/-- **What the numbers of a sender are.** They start at its counter, and each is followed by its
successor. -/
theorem Issued.numbersOf_eq (h : Issued sender number succ a l b) (k : K) :
    numbersOf sender number k l =
      List.iterate succ (a k) (numbersOf sender number k l).length := by
  induction h with
  | nil next => rfl
  | @cons next next' m l hm _ ih =>
    by_cases hk : sender m = k
    · subst hk
      rw [Function.update_self] at ih
      rw [numbersOf_cons_self, List.length_cons, List.iterate, ← ih, hm]
    · rw [Function.update_of_ne (Ne.symm hk)] at ih
      rw [numbersOf_cons_of_ne hk, ← ih]

end Numbers

/-! ### Counters without a bound -/

theorem iterate_add_one (n j : ℕ) : List.iterate (· + 1) n j = List.range' n j := by
  induction j generalizing n with
  | zero => rfl
  | succ j ih => rw [List.iterate, ih, List.range'_succ]

section Unbounded

variable {sender : μ → K} {number : μ → ℕ} {a b : K → ℕ} {l : List μ}

theorem Issued.numbersOf_eq_range' (h : Issued sender number (· + 1) a l b) (k : K) :
    numbersOf sender number k l = List.range' (a k) (numbersOf sender number k l).length := by
  rw [← iterate_add_one]
  exact h.numbersOf_eq k

theorem Issued.le_number (h : Issued sender number (· + 1) a l b) {m : μ} (hm : m ∈ l) :
    a (sender m) ≤ number m := by
  have hmem : number m ∈ numbersOf sender number (sender m) l := mem_numbersOf.mpr ⟨m, hm, rfl, rfl⟩
  rw [h.numbersOf_eq_range', List.mem_range'_1] at hmem
  exact hmem.1

/-- No two messages have the same sender and the same number. -/
theorem Issued.pairwise_ne (h : Issued sender number (· + 1) a l b) :
    l.Pairwise fun m m' => sender m ≠ sender m' ∨ number m ≠ number m' := by
  induction h with
  | nil next => exact .nil
  | @cons next next' m l hm hl ih =>
    refine .cons (fun m' hm' => ?_) ih
    by_cases hsender : sender m = sender m'
    · have hle := hl.le_number hm'
      rw [← hsender, Function.update_self] at hle
      right
      omega
    · exact .inl hsender

end Unbounded

/-! ### Counters of a width -/

/-- What comes after a number of type `uintw`. -/
def succU (w n : ℕ) : ℕ := (n + 1) % 2 ^ w

/-- A counter that is moved on, where the runtime lets it. -/
theorem addU_one_eq_ok {p : Overflow} {w n m : ℕ} (h : addU p w n 1 = .ok m) : m = succU w n := by
  rw [addU.eq_def] at h
  split at h
  · rename_i hlt
    cases h
    exact (Nat.mod_eq_of_lt hlt).symm
  · cases p with
    | trap => cases h
    | wrap =>
      cases h
      rfl

theorem iterate_succU {w n : ℕ} (h : n < 2 ^ w) (j : ℕ) : (succU w)^[j] n = (n + j) % 2 ^ w := by
  induction j with
  | zero => exact (Nat.mod_eq_of_lt h).symm
  | succ j ih =>
    rw [Function.iterate_succ_apply', ih, succU, Nat.mod_add_mod, Nat.add_assoc]

/-- All numbers that a counter of a width shows. -/
theorem iterate_succU_eq_map {w n : ℕ} (h : n < 2 ^ w) (j : ℕ) :
    List.iterate (succU w) n j = (List.range j).map fun i => (n + i) % 2 ^ w := by
  rw [← List.range_map_iterate]
  exact List.map_congr_left fun i _ => iterate_succU h i

/-- As long as the width allows for it, they are consecutive. -/
theorem iterate_succU_eq_range' {w n j : ℕ} (h : n + j ≤ 2 ^ w) :
    List.iterate (succU w) n j = List.range' n j := by
  rcases Nat.eq_zero_or_pos j with rfl | hj
  · rfl
  rw [iterate_succU_eq_map (by omega), List.range'_eq_map_range]
  refine List.map_congr_left fun i hi => Nat.mod_eq_of_lt ?_
  have := List.mem_range.mp hi
  omega

/-- They do not repeat before all of them have been shown. -/
theorem nodup_iterate_succU {w n j : ℕ} (h : n < 2 ^ w) (hj : j ≤ 2 ^ w) :
    (List.iterate (succU w) n j).Nodup := by
  rw [iterate_succU_eq_map h]
  refine List.Nodup.map_on (fun i hi i' hi' heq => ?_) List.nodup_range
  have hi := List.mem_range.mp hi
  have hi' := List.mem_range.mp hi'
  have hmod : Nat.ModEq (2 ^ w) i i' := Nat.ModEq.add_left_cancel' n heq
  exact Nat.ModEq.eq_of_lt_of_lt hmod (by omega) (by omega)

end SequenceNumbers

end RelayContracts
