import Mathlib.Logic.Function.Basic
import Mathlib.Logic.Relation

/-!
# Programs that share a state

A `Prog` acts on a shared state in one step after another, and ends with a value. A step may have
to wait: then the program is not able to go on in this state. Workers run such programs side by
side, each its own, in any interleaving of their steps. A program that ends may name the next one
its worker is to run, so that a worker may go on forever; or it may end with an error, which is
remembered, and the worker goes on with what is to be done after this error.

What workers establish together is stated with *ghosts*: each worker has one, which says what it is
at, and an invariant relates the shared state to the ghosts of all workers. `Wp` is the obligation
of one worker: whatever the others have done before, each of its steps keeps the invariant, with a
new ghost of its own, and at its end a postcondition holds of its value and its ghost. Nothing is
asked of a worker that can only end with an error any more. That all reachable states satisfy the
invariant, unless there was an error or there is one to come, then follows once for all, in
`Reachable.invariant`.

## Main definitions

* `Prog` — programs
* `Config`, `Step`, `Reachable` — workers, interleaved in any way
* `Fails` — a program that can only end with an error
* `Wp` — what one worker has to show
* `Sound` — the invariant holds, unless there is an error

## Main results

* `Wp.bind`, `Wp.foldlM`, `Wp.forM` — programs one after another, and loops
* `Sound.next`, `Sound.act` — the steps of a worker
* `Reachable.invariant` — what the workers have shown holds in every reachable state
-/

namespace RelayContracts

namespace Interleaving

/-- A program that acts on a shared state. -/
inductive Prog (σ : Type) (α : Type) : Type 1 where
  /-- The program is over. -/
  | done (a : α)
  /-- One step: it waits, or it changes the state and goes on with an answer. -/
  | act {β : Type} (f : σ → Option (β × σ)) (next : β → Prog σ α)

namespace Prog

variable {σ α β : Type}

/-- One program after another. -/
def bind : Prog σ α → (α → Prog σ β) → Prog σ β
  | .done a, q => q a
  | .act f next, q => .act f fun b => (next b).bind q

instance : Monad (Prog σ) where
  pure := .done
  bind := .bind

/-- A single step. -/
def call (f : σ → Option (β × σ)) : Prog σ β := .act f .done

end Prog

section Runs

variable {W σ N ε : Type} [DecidableEq W]

/-- The shared state, what is left of the program of each worker, and whether one of them has ended
with an error. A program ends with the name of the next one, if there is a next one. -/
structure Config (W σ N ε : Type) where
  /-- The shared state. -/
  shared : σ
  /-- The programs. -/
  thread : W → Prog σ (Except ε (Option N))
  /-- There was an error. -/
  failed : Bool

/-- What workers run: the programs, and what is to be done after an error. -/
structure Programs (σ N ε : Type) where
  /-- The program of a name. -/
  program : N → ExceptT ε (Prog σ) (Option N)
  /-- What is to be done after an error. -/
  onError : ε → Prog σ (Except ε (Option N))

variable (P : Programs σ N ε)

/-- One step of a worker, if it is able to make one. -/
def Config.step (w : W) (c : Config W σ N ε) : Option (Config W σ N ε) :=
  match c.thread w with
  | .done (.ok none) => none
  | .done (.ok (some n)) => some { c with thread := Function.update c.thread w (P.program n).run }
  | .done (.error e) => some
    { c with thread := Function.update c.thread w (P.onError e), failed := true }
  | .act f next =>
    (f c.shared).map fun p =>
      { c with shared := p.2, thread := Function.update c.thread w (next p.1) }

/-- A step of some worker. -/
def Step (c c' : Config W σ N ε) : Prop := ∃ w, c.step P w = some c'

/-- What the workers can come to. -/
def Reachable (start c : Config W σ N ε) : Prop := Relation.ReflTransGen (Step P) start c

/-- The steps of workers in a given order. -/
def Config.steps (order : List W) (c : Config W σ N ε) : Option (Config W σ N ε) :=
  order.foldlM (fun c w => c.step P w) c

variable {P}

theorem reachable_of_steps {order : List W} {start c : Config W σ N ε}
    (h : start.steps P order = some c) : Reachable P start c := by
  induction order generalizing start with
  | nil =>
    cases h
    exact .refl
  | cons w order ih =>
    obtain ⟨c₁, hstep, hsteps⟩ := Option.bind_eq_some_iff.mp h
    exact .head ⟨w, hstep⟩ (ih hsteps)

end Runs

/-! ### Programs that fail -/

section Fails

variable {σ ε α β : Type}

/-- The program can only end with an error. -/
def Fails : Prog σ (Except ε α) → Prop
  | .done r => ∀ a, r ≠ .ok a
  | .act _ next => ∀ b, Fails (next b)

theorem Fails.throw {e : ε} : Fails (MonadExcept.throw e : ExceptT ε (Prog σ) α).run := by
  intro a ha
  cases ha

/-- What follows a program that fails fails, if it fails with the error. -/
theorem Fails.run_bind {p : Prog σ (Except ε α)} {q : Except ε α → Prog σ (Except ε β)}
    (h : Fails p) (hq : ∀ e, Fails (q (.error e))) : Fails (p >>= q) := by
  induction p with
  | done r =>
    cases r with
    | ok a => exact absurd rfl (h a)
    | error e => exact hq e
  | act f next ih => exact fun b => ih b (h b)

theorem Fails.bind {p : ExceptT ε (Prog σ) α} {q : α → ExceptT ε (Prog σ) β}
    (h : Fails p.run) : Fails (p >>= q).run :=
  Fails.run_bind h fun _ => Fails.throw

end Fails

/-! ### The obligation of a worker -/

section Wp

variable {W σ G ε α β : Type} [DecidableEq W] (Inv : σ → (W → G) → Prop) (w : W)

/-- Each step of the program keeps the invariant, and at its end the postcondition holds; unless the
program fails. -/
def WpRun : Prog σ (Except ε α) → G → (α → G → Prop) → Prop
  | .done r, g, Q => ∀ a, r = .ok a → Q a g
  | .act f next, g, Q => ∀ st gs, gs w = g → Inv st gs → ∀ b st', f st = some (b, st') →
      Fails (next b) ∨ ∃ g', Inv st' (Function.update gs w g') ∧ WpRun (next b) g' Q

/-- What a worker has to show of its program. -/
def Wp (p : ExceptT ε (Prog σ) α) (g : G) (Q : α → G → Prop) : Prop := WpRun Inv w p.run g Q

variable {Inv w} {p : ExceptT ε (Prog σ) α} {g : G}

theorem WpRun.mono {p : Prog σ (Except ε α)} {Q Q' : α → G → Prop} (h : WpRun Inv w p g Q)
    (hQ : ∀ a g, Q a g → Q' a g) : WpRun Inv w p g Q' := by
  induction p generalizing g with
  | done r => exact fun a ha => hQ a g (h a ha)
  | act f next ih =>
    intro st gs hg hinv b st' hf
    rcases h st gs hg hinv b st' hf with hfail | ⟨g', hinv', hnext⟩
    · exact .inl hfail
    · exact .inr ⟨g', hinv', ih b hnext⟩

theorem Fails.wpRun {p : Prog σ (Except ε α)} {Q : α → G → Prop} (h : Fails p) :
    WpRun Inv w p g Q := by
  cases p with
  | done r => exact fun a ha => absurd ha (h a)
  | act f next => exact fun _ _ _ _ b _ _ => .inl (h b)

/-- What follows a program, which is given its errors too. -/
theorem WpRun.bind {p : Prog σ (Except ε α)} {q : Except ε α → Prog σ (Except ε β)}
    {Q : β → G → Prop} (h : WpRun Inv w p g fun a g => WpRun Inv w (q (.ok a)) g Q)
    (hq : ∀ e, Fails (q (.error e))) : WpRun Inv w (p >>= q) g Q := by
  induction p generalizing g with
  | done r =>
    cases r with
    | ok a => exact h a rfl
    | error e => exact (hq e).wpRun
  | act f next ih =>
    intro st gs hg hinv b st' hf
    rcases h st gs hg hinv b st' hf with hfail | ⟨g', hinv', hnext⟩
    · exact .inl (hfail.run_bind hq)
    · exact .inr ⟨g', hinv', ih b hnext⟩

/-- What is done with a program that may have ended with an error. -/
theorem Fails.through {F : Prog σ (Except ε α) → Prog σ (Except ε β)}
    (hact : ∀ {γ : Type} (f : σ → Option (γ × σ)) next,
      F (.act f next) = .act f fun b => F (next b))
    (hfail : ∀ e, Fails (F (.done (.error e)))) {p : Prog σ (Except ε α)} (h : Fails p) :
    Fails (F p) := by
  induction p with
  | done r =>
    cases r with
    | ok a => exact absurd rfl (h a)
    | error e => exact hfail e
  | act f next ih =>
    rw [hact]
    exact fun b => ih b (h b)

/-- What is done with a program that may have ended with an error. -/
theorem WpRun.through {F : Prog σ (Except ε α) → Prog σ (Except ε β)}
    (hact : ∀ {γ : Type} (f : σ → Option (γ × σ)) next,
      F (.act f next) = .act f fun b => F (next b))
    (hfail : ∀ e, Fails (F (.done (.error e)))) {p : Prog σ (Except ε α)} {Q : β → G → Prop}
    (h : WpRun Inv w p g fun a g => WpRun Inv w (F (.done (.ok a))) g Q) :
    WpRun Inv w (F p) g Q := by
  induction p generalizing g with
  | done r =>
    cases r with
    | ok a => exact h a rfl
    | error e => exact (hfail e).wpRun
  | act f next ih =>
    rw [hact]
    intro st gs hg hinv b st' hf
    rcases h st gs hg hinv b st' hf with hfails | ⟨g', hinv', hnext⟩
    · exact .inl (hfails.through hact hfail)
    · exact .inr ⟨g', hinv', ih b hnext⟩

theorem Wp.pure {a : α} {Q : α → G → Prop} (h : Q a g) :
    Wp Inv w (Pure.pure a : ExceptT ε (Prog σ) α) g Q := by
  intro a' ha
  cases ha
  exact h

theorem Wp.throw {e : ε} {Q : α → G → Prop} :
    Wp Inv w (MonadExcept.throw e : ExceptT ε (Prog σ) α) g Q :=
  Fails.throw.wpRun

theorem Wp.mono {Q Q' : α → G → Prop} (h : Wp Inv w p g Q) (hQ : ∀ a g, Q a g → Q' a g) :
    Wp Inv w p g Q' :=
  WpRun.mono h hQ

theorem Wp.bind {q : α → ExceptT ε (Prog σ) β} {Q : β → G → Prop}
    (h : Wp Inv w p g fun a g => Wp Inv w (q a) g Q) : Wp Inv w (p >>= q) g Q :=
  WpRun.bind h fun _ => Fails.throw

/-- One step, and what follows it: it fails, or the invariant is kept. -/
theorem Wp.call_bind {f : σ → Option (α × σ)} {q : α → ExceptT ε (Prog σ) β} {Q : β → G → Prop}
    (h : ∀ st gs, gs w = g → Inv st gs → ∀ a st', f st = some (a, st') →
      Fails (q a).run ∨ ∃ g', Inv st' (Function.update gs w g') ∧ Wp Inv w (q a) g' Q) :
    Wp Inv w (ExceptT.lift (Prog.call f) >>= q) g Q :=
  h

/-- One step. -/
theorem Wp.call {f : σ → Option (α × σ)} {Q : α → G → Prop}
    (h : ∀ st gs, gs w = g → Inv st gs → ∀ a st', f st = some (a, st') →
      ∃ g', Inv st' (Function.update gs w g') ∧ Q a g') :
    Wp Inv w (ExceptT.lift (Prog.call f) : ExceptT ε (Prog σ) α) g Q := by
  intro st gs hg hinv a st' hf
  obtain ⟨g', hinv', hQ⟩ := h st gs hg hinv a st' hf
  refine .inr ⟨g', hinv', fun a' ha => ?_⟩
  cases ha
  exact hQ

/-- A loop over a list, with what holds while some of the list is left. -/
theorem Wp.foldlM {γ : Type} {l : List γ} {f : β → γ → ExceptT ε (Prog σ) β} {b : β}
    (I : List γ → β → G → Prop) (hI : I l b g)
    (hstep : ∀ c rest b g, I (c :: rest) b g → Wp Inv w (f b c) g fun b g => I rest b g) :
    Wp Inv w (l.foldlM f b) g fun b g => I [] b g := by
  induction l generalizing b g with
  | nil => exact Wp.pure hI
  | cons c rest ih => exact Wp.bind ((hstep c rest b g hI).mono fun b g h => ih h)

/-- A loop over a list that has no value. -/
theorem Wp.forM {γ : Type} {l : List γ} {f : γ → ExceptT ε (Prog σ) Unit}
    (I : List γ → G → Prop) (hI : I l g)
    (hstep : ∀ c rest g, I (c :: rest) g → Wp Inv w (f c) g fun _ g => I rest g) :
    Wp Inv w (l.forM f) g fun _ g => I [] g := by
  induction l generalizing g with
  | nil => exact Wp.pure hI
  | cons c rest ih => exact Wp.bind ((hstep c rest g hI).mono fun _ g h => ih h)

end Wp

/-! ### All workers together -/

section Soundness

variable {W σ G N ε : Type} [DecidableEq W] {Inv : σ → (W → G) → Prop} {P : Programs σ N ε}
  {Before : N → G → Prop} {After : G → Prop}

/-- What holds of the ghost of a worker at the end of a program. -/
def Ends (Before : N → G → Prop) (After : G → Prop) : Option N → G → Prop
  | some n, g => Before n g
  | none, g => After g

/-- There was an error, or a worker can only end with one, or the invariant holds, with ghosts of
which the programs that are left keep it. -/
def Sound (Inv : σ → (W → G) → Prop) (Before : N → G → Prop) (After : G → Prop)
    (c : Config W σ N ε) : Prop :=
  c.failed = true ∨ (∃ w, Fails (c.thread w)) ∨
    ∃ gs, Inv c.shared gs ∧ ∀ w, WpRun Inv w (c.thread w) (gs w) (Ends Before After)

/-- A worker begins with its next program. -/
theorem Sound.next {c : Config W σ N ε} {w : W} {n : N} (h : Sound Inv Before After c)
    (hprogram : ∀ g, Before n g → Wp Inv w (P.program n) g (Ends Before After))
    (hthread : c.thread w = .done (.ok (some n))) :
    Sound Inv Before After
      { c with thread := Function.update c.thread w (P.program n).run } := by
  rcases h with h | ⟨v, hv⟩ | ⟨gs, hinv, hthreads⟩
  · exact .inl h
  · have hne : v ≠ w := by
      rintro rfl
      rw [hthread] at hv
      exact hv _ rfl
    exact .inr (.inl ⟨v, by simpa [hne] using hv⟩)
  · refine .inr (.inr ⟨gs, hinv, fun v => ?_⟩)
    have hw := hthreads w
    rw [hthread] at hw
    by_cases heq : v = w
    · subst heq
      have hnext : WpRun Inv v (P.program n).run (gs v) (Ends Before After) :=
        hprogram _ (hw _ rfl)
      simpa using hnext
    · simpa [heq] using hthreads v

/-- A worker makes a step on what is shared. -/
theorem Sound.act {c : Config W σ N ε} {w : W} {β : Type} {f : σ → Option (β × σ)}
    {next : β → Prog σ (Except ε (Option N))} {b : β} {st : σ} (h : Sound Inv Before After c)
    (hthread : c.thread w = .act f next) (hf : f c.shared = some (b, st)) :
    Sound Inv Before After
      { c with shared := st, thread := Function.update c.thread w (next b) } := by
  rcases h with h | ⟨v, hv⟩ | ⟨gs, hinv, hthreads⟩
  · exact .inl h
  · refine .inr (.inl ⟨v, ?_⟩)
    by_cases heq : v = w
    · subst heq
      rw [hthread] at hv
      simpa using hv b
    · simpa [heq] using hv
  · have hw := hthreads w
    rw [hthread] at hw
    rcases hw _ gs rfl hinv b st hf with hfail | ⟨g', hinv', hnext⟩
    · exact .inr (.inl ⟨w, by simpa using hfail⟩)
    · refine .inr (.inr ⟨_, hinv', fun v => ?_⟩)
      by_cases heq : v = w
      · subst heq
        simpa using hnext
      · simpa [heq] using hthreads v

/-- **Workers that keep the invariant.** If each program keeps it and ends with a ghost that the
next program can begin with, then every reachable state is sound. -/
theorem Reachable.invariant {start c : Config W σ N ε}
    (hprogram : ∀ w n g, Before n g → Wp Inv w (P.program n) g (Ends Before After)) {gs : W → G}
    (hinv : Inv start.shared gs)
    (hstart : ∀ w, WpRun Inv w (start.thread w) (gs w) (Ends Before After))
    (h : Reachable P start c) : Sound Inv Before After c := by
  induction h with
  | refl => exact .inr (.inr ⟨gs, hinv, hstart⟩)
  | @tail c c' _ hstep ih =>
    obtain ⟨w, hstep⟩ := hstep
    rw [Config.step] at hstep
    cases hthread : c.thread w with
    | done r =>
      rw [hthread] at hstep
      cases r with
      | error e =>
        cases hstep
        exact .inl rfl
      | ok n =>
        cases n with
        | none => cases hstep
        | some n =>
          cases hstep
          exact ih.next (hprogram w n) hthread
    | act f next =>
      rw [hthread] at hstep
      obtain ⟨⟨b, st⟩, hf, rfl⟩ := Option.map_eq_some_iff.mp hstep
      exact ih.act hthread hf

end Soundness

end Interleaving

end RelayContracts
