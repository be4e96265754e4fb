import Mathlib.Data.List.Infix
import Mathlib.Logic.Function.Basic
import Mathlib.Tactic.Common

/-!
# The first entry wins

A table in which an entry stays once it has been made: an entry under a key that has one already is
ignored. After a list of entries such a table holds, under each key, the first of them. So it only
grows. Where entries are made by an operation that fails on a key that has one (`tableAdd`), it is
such a table if the key is looked up before.

As with histories, lists of entries are latest first.

## Main results

* `FirstWins.table_eq_some_iff` — what the table holds is the first entry under the key
* `FirstWins.table_of_suffix` — what it holds, it holds from then on
-/

namespace RelayContracts

namespace FirstWins

variable {κ α : Type*} [DecidableEq κ]

/-- Enter `a` under `k`, unless there is an entry under `k`. -/
def enter (t : κ → Option α) (k : κ) (a : α) : κ → Option α :=
  Function.update t k ((t k).or (some a))

/-- Enter `a` under `k`, or fail with `e` if there is an entry under `k`. -/
def tableAdd {ε : Type*} (e : ε) (t : κ → Option α) (k : κ) (a : α) : Except ε (κ → Option α) :=
  match t k with
  | some _ => .error e
  | none => .ok (Function.update t k (some a))

theorem tableAdd_of_none {ε : Type*} (e : ε) {t : κ → Option α} {k : κ} (hk : t k = none) (a : α) :
    tableAdd e t k a = .ok (Function.update t k (some a)) := by
  rw [tableAdd, hk]

/-- The table after a list of entries, latest first. -/
def table : List (κ × α) → κ → Option α
  | [] => fun _ => none
  | e :: es => enter (table es) e.1 e.2

theorem enter_apply (t : κ → Option α) (k : κ) (a : α) (k' : κ) :
    enter t k a k' = (t k').or (if k' = k then some a else none) := by
  by_cases hk : k' = k
  · rw [hk, enter, Function.update_self, if_pos rfl]
  · rw [enter, Function.update_of_ne hk, if_neg hk, Option.or_none]

theorem enter_of_some {t : κ → Option α} {k : κ} {a : α} (hk : t k = some a) (a' : α) :
    enter t k a' = t := by
  rw [enter, hk, Option.some_or, ← hk, Function.update_eq_self]

theorem enter_of_none {t : κ → Option α} {k : κ} (hk : t k = none) (a : α) :
    enter t k a = Function.update t k (some a) := by
  rw [enter, hk, Option.none_or]

@[simp] theorem table_nil (k : κ) : table ([] : List (κ × α)) k = none := rfl

theorem table_cons (e : κ × α) (es : List (κ × α)) (k : κ) :
    table (e :: es) k = (table es k).or (if k = e.1 then some e.2 else none) :=
  enter_apply (table es) e.1 e.2 k

theorem table_eq_none_iff {es : List (κ × α)} {k : κ} :
    table es k = none ↔ ∀ e ∈ es, e.1 ≠ k := by
  induction es with
  | nil => simp
  | cons e es ih =>
    rw [table_cons, Option.or_eq_none_iff, ih, List.forall_mem_cons, and_comm]
    simp [eq_comm]

/-- **The first entry wins.** -/
theorem table_eq_some_iff {es : List (κ × α)} {k : κ} {a : α} :
    table es k = some a ↔ ∃ es₂ es₁, es = es₂ ++ (k, a) :: es₁ ∧ ∀ e ∈ es₁, e.1 ≠ k := by
  induction es with
  | nil => simp
  | cons e es ih =>
    rw [table_cons, Option.or_eq_some_iff, ih, table_eq_none_iff]
    constructor
    · rintro (⟨es₂, es₁, rfl, hes₁⟩ | ⟨hes, he⟩)
      · exact ⟨e :: es₂, es₁, rfl, hes₁⟩
      · obtain ⟨rfl, rfl⟩ : k = e.1 ∧ e.2 = a := by simpa using he
        exact ⟨[], es, rfl, hes⟩
    · rintro ⟨es₂, es₁, hes, hes₁⟩
      cases es₂ with
      | nil =>
        obtain ⟨rfl, rfl⟩ := List.cons.inj hes
        exact .inr ⟨hes₁, if_pos rfl⟩
      | cons e' es₂ =>
        obtain ⟨rfl, rfl⟩ := List.cons.inj hes
        exact .inl ⟨es₂, es₁, rfl, hes₁⟩

/-- An entry that has been made stays. -/
theorem table_of_suffix {es es₁ : List (κ × α)} (hs : es₁ <:+ es) {k : κ} {a : α}
    (h : table es₁ k = some a) : table es k = some a := by
  obtain ⟨es₂, rfl⟩ := hs
  induction es₂ with
  | nil => exact h
  | cons e es₂ ih => rw [List.cons_append, table_cons, ih, Option.some_or]

end FirstWins

end RelayContracts
