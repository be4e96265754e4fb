import Mathlib.Algebra.BigOperators.Group.Multiset.Basic
import Mathlib.Data.Multiset.AddSub
import Mathlib.Data.Multiset.Bind
import Mathlib.Tactic.Abel

/-!
# Relay machines

A contract of the relay model is not executed in one piece. A call runs on the scope it was sent
to, and whatever it wants done elsewhere it *emits* as a relay, which the runtime executes at some
later time on the scope it names. Between the two, any other call and any other relay may run.

This file is the runtime, with no contract in it. A `Machine` says what executing one call or one
relay does to the state; a `Config` is a state together with the relays that have been emitted and
not yet executed; a `Step` executes one call, or one relay taken out of flight. Each relay leaves
the flight when it is executed, so delivery is exactly-once by construction, and nothing is said
about which relay goes next, so a statement about every `Run` is a statement about every order of
delivery.

## Failure

A fragment that fails (an assertion, a revert, an arithmetic trap) has no effect: a failed call
leaves the configuration as it was, and a failed relay is consumed without touching the state. It
is not put back, so a failed relay is lost.

## Histories

A run is indexed by the list of its events, *latest first*, each with the value the fragment
returned or the fault it ended in. Properties such as "the call returned true" or "this relay ran
before that one" are properties of the history, so no contract state carries ghost fields. Since
the latest event is the head, the earlier points of a run are the suffixes of its history.

A run may be restricted by a guard on its steps, which sees the history and the configuration
before the step; `Anything` is the guard that allows every step.

## Main results

* `Machine.Run.invariant` — the induction rule for runs, split by what a step can do
* `Machine.Run.unique` — a run is determined by its history
* `Machine.Run.forall_inFlight` — the induction rule for what the relays in flight have in common
* `Machine.Run.conserved` — the accounting rule: what the state holds plus what is in flight is
  determined by the history
* `Machine.Run.staged` — the accounting rule for one stage of a pipeline of relays
* `Machine.exec_run` — an execution computed by `Machine.exec` is a run
-/

namespace RelayContracts

namespace RelayMachine

/-- What a fragment that did not fail leaves behind: the new state, the value it returned, and
the relays it emitted, in order. -/
structure Effect (σ μ ρ : Type*) where
  /-- The state after the fragment. -/
  state : σ
  /-- The value the fragment returned. -/
  value : ρ
  /-- The relays the fragment emitted. -/
  relays : List μ

/-- A contract as its runtime sees it: what executing a call or a relay does to a state. -/
structure Machine (σ κ μ ρ ε : Type*) where
  /-- Execute a call. -/
  call : κ → σ → Except ε (Effect σ μ ρ)
  /-- Execute a relay. -/
  relay : μ → σ → Except ε (Effect σ μ ρ)

/-- A state together with the relays emitted and not yet executed. The relays form a multiset:
there is no order among them. -/
structure Config (σ μ : Type*) where
  /-- The contract's state. -/
  state : σ
  /-- The relays in flight. -/
  inFlight : Multiset μ

/-- One step of a run, with the value returned or the fault raised. -/
inductive Event (κ μ ρ ε : Type*) where
  /-- A call was executed. -/
  | call (k : κ) (r : Except ε ρ)
  /-- A relay was taken out of flight and executed. -/
  | deliver (m : μ) (r : Except ε ρ)

variable {σ κ μ ρ ε : Type*}

/-- The calls of a history, latest first, whatever they returned. -/
def calls : List (Event κ μ ρ ε) → List κ
  | [] => []
  | .call k _ :: h => k :: calls h
  | .deliver _ _ :: h => calls h

@[simp] theorem calls_nil : calls ([] : List (Event κ μ ρ ε)) = [] := rfl

@[simp] theorem calls_cons_call (k : κ) (r : Except ε ρ) (h : List (Event κ μ ρ ε)) :
    calls (.call k r :: h) = k :: calls h := rfl

@[simp] theorem calls_cons_deliver (m : μ) (r : Except ε ρ) (h : List (Event κ μ ρ ε)) :
    calls (.deliver m r :: h) = calls h := rfl

theorem mem_calls {k : κ} {h : List (Event κ μ ρ ε)} :
    k ∈ calls h ↔ ∃ r, .call k r ∈ h := by
  induction h with
  | nil => simp
  | cons e h ih =>
    cases e with
    | call k' r =>
      rw [calls_cons_call, List.mem_cons, ih]
      constructor
      · rintro (rfl | ⟨r', hr'⟩)
        · exact ⟨r, List.mem_cons_self⟩
        · exact ⟨r', List.mem_cons_of_mem _ hr'⟩
      · rintro ⟨r', hr'⟩
        rcases List.mem_cons.mp hr' with heq | hr'
        · cases heq
          exact .inl rfl
        · exact .inr ⟨r', hr'⟩
    | deliver m r => simpa using ih

theorem calls_suffix {h h₁ : List (Event κ μ ρ ε)} (hs : h₁ <:+ h) : calls h₁ <:+ calls h := by
  obtain ⟨h₂, rfl⟩ := hs
  induction h₂ with
  | nil => exact List.suffix_rfl
  | cons e h₂ ih =>
    cases e with
    | call k r => exact ih.trans (List.suffix_cons _ _)
    | deliver m r => exact ih

/-- The guard that allows every step. -/
def Anything (_ : List (Event κ μ ρ ε)) (_ : Config σ μ) (_ : Event κ μ ρ ε) : Prop := True

instance (h : List (Event κ μ ρ ε)) (c : Config σ μ) (e : Event κ μ ρ ε) :
    Decidable (Anything h c e) := isTrue trivial

/-- What the relays in flight carry, by a measure of relays. -/
def Config.carried {α : Type*} [AddCommMonoid α] (w : μ → α) (c : Config σ μ) : α :=
  (c.inFlight.map w).sum

/-- What the events of a history add up to, by a measure of events. -/
def booked {α : Type*} [AddCommMonoid α] (f : Event κ μ ρ ε → α) (h : List (Event κ μ ρ ε)) : α :=
  (h.map f).sum

/-- What an event has executed of what was in flight, by a measure of relays. -/
def executed {α : Type*} [Zero α] (w : μ → α) : Event κ μ ρ ε → α
  | .deliver m (.ok _) => w m
  | _ => 0

/-- What an event has lost of what was in flight: a relay that fails is not executed again. -/
def reverted {α : Type*} [Zero α] (w : μ → α) : Event κ μ ρ ε → α
  | .deliver m (.error _) => w m
  | _ => 0

section Losses

variable {α : Type*} [Zero α] (w : μ → α) (k : κ) (m : μ) (v : ρ) (f : ε)

@[simp] theorem executed_call (r : Except ε ρ) : executed w (.call k r : Event κ μ ρ ε) = 0 := rfl

@[simp] theorem executed_ok : executed w (.deliver m (.ok v) : Event κ μ ρ ε) = w m := rfl

@[simp] theorem executed_error : executed w (.deliver m (.error f) : Event κ μ ρ ε) = 0 := rfl

@[simp] theorem reverted_call (r : Except ε ρ) : reverted w (.call k r : Event κ μ ρ ε) = 0 := rfl

@[simp] theorem reverted_ok : reverted w (.deliver m (.ok v) : Event κ μ ρ ε) = 0 := rfl

@[simp] theorem reverted_error : reverted w (.deliver m (.error f) : Event κ μ ρ ε) = w m := rfl

end Losses

section Carried

variable {α : Type*} [AddCommMonoid α] (w : μ → α) (s : σ)

@[simp] theorem Config.carried_zero : (⟨s, 0⟩ : Config σ μ).carried w = 0 := by
  rw [carried, Multiset.map_zero, Multiset.sum_zero]

/-- With nothing in flight, nothing is carried. -/
theorem Config.carried_of_quiescent {c : Config σ μ} (hq : c.inFlight = 0) : c.carried w = 0 := by
  rw [carried, hq, Multiset.map_zero, Multiset.sum_zero]

@[simp] theorem Config.carried_cons (m : μ) (rest : Multiset μ) :
    (⟨s, m ::ₘ rest⟩ : Config σ μ).carried w = w m + (rest.map w).sum := by
  rw [carried, Multiset.map_cons, Multiset.sum_cons]

@[simp] theorem Config.carried_add (rest : Multiset μ) (out : List μ) :
    (⟨s, rest + out⟩ : Config σ μ).carried w = (rest.map w).sum + (out.map w).sum := by
  rw [carried, Multiset.map_add, Multiset.sum_add, Multiset.map_coe, Multiset.sum_coe]

/-- What all relays have in common that were in flight, or were emitted. -/
theorem forall_mem_add_coe {P : μ → Prop} {rest : Multiset μ} {out : List μ} :
    (∀ m ∈ rest + out, P m) ↔ (∀ m ∈ rest, P m) ∧ ∀ m ∈ out, P m := by
  simp only [Multiset.mem_add, Multiset.mem_coe, or_imp, forall_and]

/-- What is carried, where relays carry several things each, is what some relay carries. -/
theorem Config.mem_carried {β : Type*} {w : μ → Multiset β} {c : Config σ μ} {x : β} :
    x ∈ c.carried w ↔ ∃ m ∈ c.inFlight, x ∈ w m := Multiset.mem_bind

@[simp] theorem booked_nil (f : Event κ μ ρ ε → α) : booked f [] = 0 := rfl

@[simp] theorem booked_cons (f : Event κ μ ρ ε → α) (e : Event κ μ ρ ε)
    (h : List (Event κ μ ρ ε)) : booked f (e :: h) = f e + booked f h := List.sum_cons

theorem booked_add (f g : Event κ μ ρ ε → α) (h : List (Event κ μ ρ ε)) :
    booked (fun e => f e + g e) h = booked f h + booked g h := List.sum_map_add

theorem booked_ite (p : Event κ μ ρ ε → Bool) (h : List (Event κ μ ρ ε)) :
    booked (fun e => if p e then 1 else 0) h = h.countP p := by
  induction h with
  | nil => rfl
  | cons e h ih => rw [booked_cons, ih, List.countP_cons, Nat.add_comm]

end Carried

namespace Machine

variable (M : Machine σ κ μ ρ ε)

/-! ### Steps and runs -/

/-- One step of the runtime. -/
inductive Step (c : Config σ μ) : Event κ μ ρ ε → Config σ μ → Prop
  /-- A call that succeeds puts the relays it emits in flight. -/
  | callOk {k : κ} {eff : Effect σ μ ρ} (hk : M.call k c.state = .ok eff) :
      Step c (.call k (.ok eff.value)) ⟨eff.state, c.inFlight + eff.relays⟩
  /-- A call that fails changes nothing. -/
  | callError {k : κ} {f : ε} (hk : M.call k c.state = .error f) : Step c (.call k (.error f)) c
  /-- A relay in flight is executed, and leaves the flight. -/
  | deliverOk {m : μ} {rest : Multiset μ} {eff : Effect σ μ ρ} (hm : c.inFlight = m ::ₘ rest)
      (hk : M.relay m c.state = .ok eff) :
      Step c (.deliver m (.ok eff.value)) ⟨eff.state, rest + eff.relays⟩
  /-- A relay that fails is consumed and changes nothing else. -/
  | deliverError {m : μ} {rest : Multiset μ} {f : ε} (hm : c.inFlight = m ::ₘ rest)
      (hk : M.relay m c.state = .error f) :
      Step c (.deliver m (.error f)) ⟨c.state, rest⟩

/-- `M.Run G c₀ h c`: from `c₀` the machine reaches `c` by the events of `h`, latest first, each
step allowed by the guard `G`. -/
inductive Run (G : List (Event κ μ ρ ε) → Config σ μ → Event κ μ ρ ε → Prop) (c₀ : Config σ μ) :
    List (Event κ μ ρ ε) → Config σ μ → Prop
  /-- Nothing has happened yet. -/
  | nil : Run G c₀ [] c₀
  /-- One more step. -/
  | step {h : List (Event κ μ ρ ε)} {c c' : Config σ μ} {e : Event κ μ ρ ε}
      (hr : Run G c₀ h c) (hs : M.Step c e c') (hg : G h c e) : Run G c₀ (e :: h) c'

variable {M} {G : List (Event κ μ ρ ε) → Config σ μ → Event κ μ ρ ε → Prop}
  {c₀ c : Config σ μ} {h : List (Event κ μ ρ ε)}

/-- A run under a guard is a run under any weaker one. -/
theorem Run.mono {G' : List (Event κ μ ρ ε) → Config σ μ → Event κ μ ρ ε → Prop}
    (hr : M.Run G c₀ h c) (hG : ∀ h c e, G h c e → G' h c e) : M.Run G' c₀ h c := by
  induction hr with
  | nil => exact .nil
  | step _ hs hg ih => exact .step ih hs (hG _ _ _ hg)

/-- A run is a run under any guard that its own steps are found to meet. -/
theorem Run.mono_of_run {G' : List (Event κ μ ρ ε) → Config σ μ → Event κ μ ρ ε → Prop}
    (hr : M.Run G c₀ h c)
    (hG : ∀ {h c e c'}, M.Run G c₀ h c → M.Step c e c' → G h c e → G' h c e) :
    M.Run G' c₀ h c := by
  induction hr with
  | nil => exact .nil
  | step hr hs hg ih => exact ih.step hs (hG hr hs hg)

/-- The steps of a run lead to its history. -/
theorem Run.within (hr : M.Run G c₀ h c) :
    M.Run (fun h' c e => G h' c e ∧ e :: h' <:+ h) c₀ h c := by
  induction hr with
  | nil => exact .nil
  | @step h _ _ e _ hs hg ih =>
    refine (ih.mono fun h' c e' he => ?_).step hs ⟨hg, List.suffix_rfl⟩
    exact ⟨he.1, he.2.trans (List.suffix_cons e h)⟩

/-- A relay that is executed was in flight. -/
theorem Step.mem_inFlight {c' : Config σ μ} {m : μ} {r : Except ε ρ}
    (hs : M.Step c (.deliver m r) c') : m ∈ c.inFlight := by
  cases hs with
  | @deliverOk _ rest _ hm _ => exact hm ▸ Multiset.mem_cons_self m rest
  | @deliverError _ rest _ hm _ => exact hm ▸ Multiset.mem_cons_self m rest

/-- With one relay in flight, that one is executed. -/
theorem Step.of_singleton {s : σ} {m m' : μ} {r : Except ε ρ} {c' : Config σ μ}
    (hs : M.Step ⟨s, {m}⟩ (.deliver m' r) c') :
    (∃ eff, M.relay m s = .ok eff ∧ c' = ⟨eff.state, eff.relays⟩) ∨
      ∃ f, M.relay m s = .error f ∧ c' = ⟨s, 0⟩ := by
  cases hs with
  | deliverOk hm hk =>
    obtain ⟨rfl, rfl⟩ := (Multiset.singleton_eq_cons_iff _).mp hm
    exact .inl ⟨_, hk, by rw [zero_add]⟩
  | deliverError hm hk =>
    obtain ⟨rfl, rfl⟩ := (Multiset.singleton_eq_cons_iff _).mp hm
    exact .inr ⟨_, hk, rfl⟩

/-- A step is determined by its event. -/
theorem Step.unique {e e' : Event κ μ ρ ε} {c₁ c₂ : Config σ μ} (h₁ : M.Step c e c₁)
    (h₂ : M.Step c e' c₂) (he : e = e') : c₁ = c₂ := by
  cases h₁ with
  | callOk hk =>
    cases h₂ with
    | callOk hk' =>
      obtain ⟨rfl, -⟩ := Event.call.inj he
      cases hk.symm.trans hk'
      rfl
    | callError => cases he
    | deliverOk => cases he
    | deliverError => cases he
  | callError hk =>
    cases h₂ with
    | callOk => cases he
    | callError => rfl
    | deliverOk => cases he
    | deliverError => cases he
  | deliverOk hm hk =>
    cases h₂ with
    | callOk => cases he
    | callError => cases he
    | deliverOk hm' hk' =>
      obtain ⟨rfl, -⟩ := Event.deliver.inj he
      cases hk.symm.trans hk'
      rw [(Multiset.cons_inj_right _).mp (hm.symm.trans hm')]
    | deliverError => cases he
  | deliverError hm hk =>
    cases h₂ with
    | callOk => cases he
    | callError => cases he
    | deliverOk => cases he
    | deliverError hm' hk' =>
      obtain ⟨rfl, -⟩ := Event.deliver.inj he
      rw [(Multiset.cons_inj_right _).mp (hm.symm.trans hm')]

/-- **Determinacy.** Where a run is, is determined by its history. -/
theorem Run.unique {G' : List (Event κ μ ρ ε) → Config σ μ → Event κ μ ρ ε → Prop}
    {c₁ c₂ : Config σ μ} (h₁ : M.Run G c₀ h c₁) (h₂ : M.Run G' c₀ h c₂) : c₁ = c₂ := by
  induction h₁ generalizing c₂ with
  | nil =>
    cases h₂
    rfl
  | step hr hs hg ih =>
    cases h₂ with
    | step hr' hs' hg' =>
      obtain rfl := ih hr'
      exact hs.unique hs' rfl

/-- The earlier points of a run are runs. -/
theorem Run.of_suffix (hr : M.Run G c₀ h c) {h' : List (Event κ μ ρ ε)} (hs : h' <:+ h) :
    ∃ c', M.Run G c₀ h' c' := by
  induction hr with
  | nil =>
    rw [List.suffix_nil.mp hs]
    exact ⟨c₀, .nil⟩
  | step hr hst hg ih =>
    rcases List.suffix_cons_iff.mp hs with rfl | hs
    · exact ⟨_, hr.step hst hg⟩
    · exact ih hs

/-- **From one point of a run to a later one.** What relates a configuration to itself, and stays
when a step follows, relates it to the end of the run. -/
theorem Run.rel_of_suffix {G' : List (Event κ μ ρ ε) → Config σ μ → Event κ μ ρ ε → Prop}
    {R : Config σ μ → Prop} {h₁ : List (Event κ μ ρ ε)} {c₁ : Config σ μ}
    (hr : M.Run G c₀ h c) (hr₁ : M.Run G' c₀ h₁ c₁) (hs : h₁ <:+ h) (hrefl : R c₁)
    (hstep : ∀ {h c e c'}, R c → M.Step c e c' → G h c e → R c') : R c := by
  induction hr with
  | nil =>
    obtain rfl := List.suffix_nil.mp hs
    exact hr₁.unique (Run.nil (G := G)) ▸ hrefl
  | step hr hst hg ih =>
    rcases List.suffix_cons_iff.mp hs with rfl | hs
    · exact hr₁.unique (hr.step hst hg) ▸ hrefl
    · exact hstep (ih hs) hst hg

/-- A relay in flight can be executed next. -/
theorem exists_step_of_mem {m : μ} (hm : m ∈ c.inFlight) :
    ∃ r c', M.Step c (.deliver m r) c' := by
  obtain ⟨rest, hrest⟩ := Multiset.exists_cons_of_mem hm
  cases hk : M.relay m c.state with
  | ok eff => exact ⟨_, _, .deliverOk hrest hk⟩
  | error f => exact ⟨_, _, .deliverError hrest hk⟩

/-- **Induction over runs.** A property of the history and the configuration holds along every
run if it holds at the start and each of the four kinds of step preserves it. -/
theorem Run.invariant {I : List (Event κ μ ρ ε) → Config σ μ → Prop} (hr : M.Run G c₀ h c)
    (hnil : I [] c₀)
    (hcall : ∀ {h c k eff}, M.Run G c₀ h c → I h c → G h c (.call k (.ok eff.value)) →
      M.call k c.state = .ok eff →
      I (.call k (.ok eff.value) :: h) ⟨eff.state, c.inFlight + eff.relays⟩)
    (hcallError : ∀ {h c k f}, M.Run G c₀ h c → I h c → G h c (.call k (.error f)) →
      M.call k c.state = .error f → I (.call k (.error f) :: h) c)
    (hdeliver : ∀ {h s m rest eff}, M.Run G c₀ h ⟨s, m ::ₘ rest⟩ → I h ⟨s, m ::ₘ rest⟩ →
      G h ⟨s, m ::ₘ rest⟩ (.deliver m (.ok eff.value)) → M.relay m s = .ok eff →
      I (.deliver m (.ok eff.value) :: h) ⟨eff.state, rest + eff.relays⟩)
    (hdeliverError : ∀ {h s m rest f}, M.Run G c₀ h ⟨s, m ::ₘ rest⟩ → I h ⟨s, m ::ₘ rest⟩ →
      G h ⟨s, m ::ₘ rest⟩ (.deliver m (.error f)) → M.relay m s = .error f →
      I (.deliver m (.error f) :: h) ⟨s, rest⟩) :
    I h c := by
  induction hr with
  | nil => exact hnil
  | @step h c c' e hr hs hg ih =>
    obtain ⟨s, flight⟩ := c
    cases hs with
    | callOk hk => exact hcall hr ih hg hk
    | callError hk => exact hcallError hr ih hg hk
    | @deliverOk m rest eff hm hk =>
      obtain rfl : flight = m ::ₘ rest := hm
      exact hdeliver hr ih hg hk
    | @deliverError m rest f hm hk =>
      obtain rfl : flight = m ::ₘ rest := hm
      exact hdeliverError hr ih hg hk

/-- **Induction over the flight.** A property of the relays in flight holds along every run if the
relays a step emits have it and those it does not touch keep it. -/
theorem Run.forall_inFlight {P : List (Event κ μ ρ ε) → σ → μ → Prop} (hr : M.Run G c₀ h c)
    (hnil : ∀ m ∈ c₀.inFlight, P [] c₀.state m)
    (hcall : ∀ {h c k eff}, M.Run G c₀ h c → G h c (.call k (.ok eff.value)) →
      M.call k c.state = .ok eff →
      (∀ m, P h c.state m → P (.call k (.ok eff.value) :: h) eff.state m) ∧
        ∀ m ∈ eff.relays, P (.call k (.ok eff.value) :: h) eff.state m)
    (hcallError : ∀ {h s k f m}, P h s m → P (.call k (.error f) :: h) s m)
    (hdeliver : ∀ {h s m rest eff}, M.Run G c₀ h ⟨s, m ::ₘ rest⟩ →
      G h ⟨s, m ::ₘ rest⟩ (.deliver m (.ok eff.value)) → M.relay m s = .ok eff → P h s m →
      (∀ m', P h s m' → P (.deliver m (.ok eff.value) :: h) eff.state m') ∧
        ∀ m' ∈ eff.relays, P (.deliver m (.ok eff.value) :: h) eff.state m')
    (hdeliverError : ∀ {h s m f m'}, P h s m' → P (.deliver m (.error f) :: h) s m') :
    ∀ m ∈ c.inFlight, P h c.state m := by
  refine hr.invariant (I := fun h c => ∀ m ∈ c.inFlight, P h c.state m) hnil ?_ ?_ ?_ ?_
  · intro h c k eff hr ih hg hk m hm
    obtain ⟨hkeep, hnew⟩ := hcall hr hg hk
    rcases Multiset.mem_add.mp hm with hm | hm
    · exact hkeep m (ih m hm)
    · exact hnew m (Multiset.mem_coe.mp hm)
  · intro h c k f _ ih _ _ m hm
    exact hcallError (ih m hm)
  · intro h s m rest eff hr ih hg hk m' hm'
    obtain ⟨hkeep, hnew⟩ := hdeliver hr hg hk (ih m (Multiset.mem_cons_self m rest))
    rcases Multiset.mem_add.mp hm' with hm' | hm'
    · exact hkeep m' (ih m' (Multiset.mem_cons_of_mem hm'))
    · exact hnew m' (Multiset.mem_coe.mp hm')
  · intro h s m rest f _ ih _ _ m' hm'
    exact hdeliverError (ih m' (Multiset.mem_cons_of_mem hm'))

/-! ### Accounting -/

/-- **Conservation.** Let `V` measure a state and `w` a relay, and let `gain` and `spent` say what
an event brings in and takes out. If every step balances, then at every point of every run the
state and the flight together hold what they held at the start and what the history has brought in
and not taken out.

The hypotheses are stated without subtraction, so that the rule serves `ℕ` as well as `ℤ`. A relay
that fails takes what it carried with it, and `spent` has to write that off. -/
theorem Run.conserved {α : Type*} [AddCommMonoid α] (hr : M.Run G c₀ h c) (V : σ → α) (w : μ → α)
    (spent gain : Event κ μ ρ ε → α)
    (hcall : ∀ {h c k eff}, G h c (.call k (.ok eff.value)) → M.call k c.state = .ok eff →
      V eff.state + (eff.relays.map w).sum + spent (.call k (.ok eff.value)) =
        V c.state + gain (.call k (.ok eff.value)))
    (hcallError : ∀ {s k f}, M.call k s = .error f →
      spent (.call k (.error f)) = gain (.call k (.error f)))
    (hdeliver : ∀ {s m eff}, M.relay m s = .ok eff →
      V eff.state + (eff.relays.map w).sum + spent (.deliver m (.ok eff.value)) =
        V s + w m + gain (.deliver m (.ok eff.value)))
    (hdeliverError : ∀ {s m f}, M.relay m s = .error f →
      spent (.deliver m (.error f)) = w m + gain (.deliver m (.error f))) :
    V c.state + c.carried w + booked spent h = V c₀.state + c₀.carried w + booked gain h := by
  refine hr.invariant (I := fun h c => V c.state + c.carried w + booked spent h =
    V c₀.state + c₀.carried w + booked gain h) ?_ ?_ ?_ ?_ ?_
  · rw [booked_nil, booked_nil]
  · intro h c k eff _ ih hg hk
    set e : Event κ μ ρ ε := .call k (.ok eff.value)
    rw [Config.carried_add, booked_cons, booked_cons]
    calc V eff.state + ((c.inFlight.map w).sum + (eff.relays.map w).sum) +
          (spent e + booked spent h)
        = V eff.state + (eff.relays.map w).sum + spent e +
          ((c.inFlight.map w).sum + booked spent h) := by abel
      _ = V c.state + c.carried w + booked spent h + gain e := by
          rw [hcall hg hk, Config.carried]; abel
      _ = V c₀.state + c₀.carried w + (gain e + booked gain h) := by rw [ih]; abel
  · intro h c k f _ ih _ hk
    rw [booked_cons, booked_cons, hcallError hk, add_left_comm, ih, add_left_comm]
  · intro h s m rest eff _ ih _ hk
    set e : Event κ μ ρ ε := .deliver m (.ok eff.value)
    rw [Config.carried_cons] at ih
    rw [Config.carried_add, booked_cons, booked_cons]
    calc V eff.state + ((rest.map w).sum + (eff.relays.map w).sum) + (spent e + booked spent h)
        = V eff.state + (eff.relays.map w).sum + spent e +
          ((rest.map w).sum + booked spent h) := by abel
      _ = V s + (w m + (rest.map w).sum) + booked spent h + gain e := by rw [hdeliver hk]; abel
      _ = V c₀.state + c₀.carried w + (gain e + booked gain h) := by rw [ih]; abel
  · intro h s m rest f _ ih _ hk
    set e : Event κ μ ρ ε := .deliver m (.error f)
    rw [Config.carried_cons] at ih
    rw [booked_cons, booked_cons, hdeliverError hk]
    calc V s + (rest.map w).sum + (w m + gain e + booked spent h)
        = V s + (w m + (rest.map w).sum) + booked spent h + gain e := by abel
      _ = V c₀.state + c₀.carried w + (gain e + booked gain h) := by rw [ih]; abel

/-- **A stage of a pipeline.** If each event counted by `q` puts one unit (by the measure `w`) in
flight, and each event counted by `p` takes one out, then the `q`-events are the `p`-events and
what is still in flight. -/
theorem Run.staged (hr : M.Run G c₀ h c) (w : μ → ℕ) (p q : Event κ μ ρ ε → Bool)
    (hnil : c₀.carried w = 0)
    (hcall : ∀ {s k eff}, M.call k s = .ok eff →
      (eff.relays.map w).sum + (if p (.call k (.ok eff.value)) then 1 else 0) =
        if q (.call k (.ok eff.value)) then 1 else 0)
    (hcallError : ∀ k f, p (.call k (.error f)) = q (.call k (.error f)))
    (hdeliver : ∀ {s m eff}, M.relay m s = .ok eff →
      (eff.relays.map w).sum + (if p (.deliver m (.ok eff.value)) then 1 else 0) =
        w m + if q (.deliver m (.ok eff.value)) then 1 else 0)
    (hdeliverError : ∀ {s m f}, M.relay m s = .error f →
      (if p (.deliver m (.error f)) then 1 else 0) =
        w m + if q (.deliver m (.error f)) then 1 else 0) :
    c.carried w + h.countP p = h.countP q := by
  have hbal := hr.conserved (fun _ => 0) w (fun e => if p e then 1 else 0)
    (fun e => if q e then 1 else 0)
    (fun _ hk => by rw [Nat.zero_add, Nat.zero_add]; exact hcall hk)
    (fun {_ k f} _ => by rw [hcallError k f])
    (fun hk => by rw [Nat.zero_add, Nat.zero_add]; exact hdeliver hk) hdeliverError
  rw [hnil] at hbal
  simpa only [booked_ite, Nat.zero_add] using hbal

/-! ### Executing -/

end Machine

/-- A choice of the scheduler: which call or which relay goes next. -/
inductive Action (κ μ : Type*) where
  /-- Execute this call. -/
  | call (k : κ)
  /-- Execute this relay, if it is in flight. -/
  | deliver (m : μ)

namespace Machine

variable (M : Machine σ κ μ ρ ε) [DecidableEq μ]

/-- Execute one choice of the scheduler. `none` if the relay chosen is not in flight. -/
def act (c : Config σ μ) : Action κ μ → Option (Event κ μ ρ ε × Config σ μ)
  | .call k =>
    match M.call k c.state with
    | .ok eff => some (.call k (.ok eff.value), ⟨eff.state, c.inFlight + eff.relays⟩)
    | .error f => some (.call k (.error f), c)
  | .deliver m =>
    if m ∈ c.inFlight then
      match M.relay m c.state with
      | .ok eff => some (.deliver m (.ok eff.value), ⟨eff.state, c.inFlight.erase m + eff.relays⟩)
      | .error f => some (.deliver m (.error f), ⟨c.state, c.inFlight.erase m⟩)
    else none

theorem step_of_act {c c' : Config σ μ} {a : Action κ μ} {e : Event κ μ ρ ε}
    (ha : M.act c a = some (e, c')) : M.Step c e c' := by
  cases a with
  | call k =>
    simp only [act] at ha
    split at ha <;> cases ha
    · exact .callOk ‹_›
    · exact .callError ‹_›
  | deliver m =>
    simp only [act] at ha
    split at ha
    · have hm : c.inFlight = m ::ₘ c.inFlight.erase m := (Multiset.cons_erase ‹_›).symm
      split at ha <;> cases ha
      · exact .deliverOk hm ‹_›
      · exact .deliverError hm ‹_›
    · cases ha

theorem exists_step_of_act_call {c : Config σ μ} {k : κ} {x : Event κ μ ρ ε × Config σ μ}
    (ha : M.act c (.call k) = some x) : ∃ r, M.Step c (.call k r) x.2 := by
  simp only [act] at ha
  split at ha <;> cases ha
  · exact ⟨_, .callOk ‹_›⟩
  · exact ⟨_, .callError ‹_›⟩

omit [DecidableEq μ] in
/-- A call that is found to succeed is a step. -/
theorem step_of_mem_toOption {c : Config σ μ} {k : κ} {eff : Effect σ μ ρ}
    (hk : eff ∈ (M.call k c.state).toOption) :
    M.Step c (.call k (.ok eff.value)) ⟨eff.state, c.inFlight + eff.relays⟩ := by
  cases hcall : M.call k c.state with
  | error f =>
    rw [hcall] at hk
    cases hk
  | ok eff' =>
    rw [hcall] at hk
    cases hk
    exact .callOk hcall

/-- Execute a schedule from a point of a run, stopping with `none` at a choice that is not
enabled or not allowed by the guard. -/
def execFrom (G : List (Event κ μ ρ ε) → Config σ μ → Event κ μ ρ ε → Prop)
    [∀ h c e, Decidable (G h c e)] :
    List (Action κ μ) → List (Event κ μ ρ ε) → Config σ μ →
      Option (List (Event κ μ ρ ε) × Config σ μ)
  | [], h, c => some (h, c)
  | a :: as, h, c =>
    match M.act c a with
    | some (e, c') => if G h c e then execFrom G as (e :: h) c' else none
    | none => none

/-- Execute a schedule from the start. -/
def exec (G : List (Event κ μ ρ ε) → Config σ μ → Event κ μ ρ ε → Prop)
    [∀ h c e, Decidable (G h c e)] (c₀ : Config σ μ) (as : List (Action κ μ)) :
    Option (List (Event κ μ ρ ε) × Config σ μ) := M.execFrom G as [] c₀

variable {M} {G : List (Event κ μ ρ ε) → Config σ μ → Event κ μ ρ ε → Prop}
  [∀ h c e, Decidable (G h c e)] {c₀ : Config σ μ}

theorem Run.execFrom {as : List (Action κ μ)} {h : List (Event κ μ ρ ε)} {c : Config σ μ}
    {r : List (Event κ μ ρ ε) × Config σ μ} (hr : M.Run G c₀ h c)
    (hx : M.execFrom G as h c = some r) : M.Run G c₀ r.1 r.2 := by
  induction as generalizing h c with
  | nil =>
    cases hx
    exact hr
  | cons a as ih =>
    simp only [Machine.execFrom] at hx
    split at hx
    · rename_i e c' ha
      split at hx
      · exact ih (hr.step (M.step_of_act ha) ‹_›) hx
      · cases hx
    · cases hx

/-- An execution adds to the history it starts from. -/
theorem suffix_of_execFrom {as : List (Action κ μ)} {h : List (Event κ μ ρ ε)} {c : Config σ μ}
    {r : List (Event κ μ ρ ε) × Config σ μ} (hx : M.execFrom G as h c = some r) : h <:+ r.1 := by
  induction as generalizing h c with
  | nil =>
    cases hx
    exact List.suffix_rfl
  | cons a as ih =>
    simp only [Machine.execFrom] at hx
    split at hx
    · split at hx
      · exact (List.suffix_cons _ h).trans (ih hx)
      · cases hx
    · cases hx

/-- **Executions are runs.** What `exec` computes is reached by a run whose history it returns. -/
theorem exec_run {as : List (Action κ μ)} {r : List (Event κ μ ρ ε) × Config σ μ}
    (hx : M.exec G c₀ as = some r) : M.Run G c₀ r.1 r.2 :=
  Run.nil.execFrom hx

end Machine

end RelayMachine

end RelayContracts
