import Mathlib.Data.List.Basic
import Mathlib.Logic.Function.Basic

/-!
# Programs that ask for what they read

A `ReadProgram` is a computation as its reads see it: it ends with a result, or it asks for the
value of a place and goes on with the answer. Nothing is said about where the answers come from, so
the same program can be run against one state after another.

A run either asks anew each time (`eval`), or remembers what was read (`capture`): then a place that
has been read once is not asked for again, and the list of reads is a full account of the run.

## Main results

* `eval_congr` — states that agree on what is read give the same result
* `capture_update` — a place that has been read may change
-/

namespace RelayContracts

/-- A computation that asks for the places it reads. -/
inductive ReadProgram (L A R : Type) where
  /-- The computation is over. -/
  | done (result : R)
  /-- The value of a place is asked for. -/
  | read (l : L) (next : A → ReadProgram L A R)

namespace ReadProgram

variable {L A R : Type}

/-- Run against a state, remembering the places read in the order of their first read. -/
def capture [DecidableEq L] (view : L → A) :
    ReadProgram L A R → List (L × A) → List (L × A) × R
  | .done r, reads => (reads, r)
  | .read l next, reads =>
    match reads.lookup l with
    | some a => capture view (next a) reads
    | none => capture view (next (view l)) (reads ++ [(l, view l)])

/-- The result against a state, each place being read anew. -/
def eval (view : L → A) : ReadProgram L A R → R
  | .done r => r
  | .read l next => eval view (next (view l))

/-- The places that are read against a state. -/
def queried (view : L → A) : ReadProgram L A R → List L
  | .done _ => []
  | .read l next => l :: queried view (next (view l))

/-- States that agree on what is read against one of them give the same result. -/
theorem eval_congr {view view' : L → A} {p : ReadProgram L A R}
    (h : ∀ l ∈ queried view p, view' l = view l) : eval view' p = eval view p := by
  induction p with
  | done r => rfl
  | read l next ih =>
    rw [eval, eval, h l List.mem_cons_self]
    exact ih (view l) fun l' hl' => h l' (List.mem_cons_of_mem l hl')

/-- A place that has been read is not asked for again, so what is there does not matter. -/
theorem capture_update [DecidableEq L] {view : L → A} {reads : List (L × A)} {l : L}
    (h : (reads.lookup l).isSome) (a : A) (p : ReadProgram L A R) :
    capture (Function.update view l a) p reads = capture view p reads := by
  induction p generalizing reads with
  | done r => rfl
  | read l' next ih =>
    cases hl : reads.lookup l' with
    | some b =>
      simp only [capture, hl]
      exact ih b h
    | none =>
      have hne : l' ≠ l := by
        rintro rfl
        rw [hl] at h
        cases h
      simp only [capture, hl, Function.update_of_ne hne]
      refine ih _ ?_
      rw [List.lookup_append, Option.isSome_or, h]
      rfl

end ReadProgram

end RelayContracts
