import RelayContracts.RelayMachine

/-!
# Contracts without relays

A contract that does everything within the call is a relay machine that never emits: its relays
are of the type `Empty`. Such a machine has nothing in flight at any time, and what a run of it
returns and where it ends is determined by the calls alone.

A relay contract comes closest to such a one when its runs are *eager*: a call is made only with
nothing in flight. `Machine.Run.refines` compares the two. It is a forward simulation in which a
call of one is matched by the same call of the other, with the same result, and a delivery by
nothing.

## Main results

* `Machine.exists_eager_run` — where relays emit ever less, every list of calls has an eager run
* `Machine.Run.call_invariant` — induction over runs without relays
* `Machine.Run.state_eq` — without relays, the state is a function of the calls
* `Machine.Run.outcomes_unique` — and so are the results
* `Machine.Run.refines` — the simulation rule
-/

namespace RelayContracts

namespace RelayMachine

variable {σ τ κ μ ρ ε : Type*}

/-- The calls of a history with what they returned, latest first. -/
def outcomes : List (Event κ μ ρ ε) → List (κ × Except ε ρ)
  | [] => []
  | .call k r :: h => (k, r) :: outcomes h
  | .deliver _ _ :: h => outcomes h

@[simp] theorem outcomes_nil : outcomes ([] : List (Event κ μ ρ ε)) = [] := rfl

@[simp] theorem outcomes_cons_call (k : κ) (r : Except ε ρ) (h : List (Event κ μ ρ ε)) :
    outcomes (.call k r :: h) = (k, r) :: outcomes h := rfl

@[simp] theorem outcomes_cons_deliver (m : μ) (r : Except ε ρ) (h : List (Event κ μ ρ ε)) :
    outcomes (.deliver m r :: h) = outcomes h := rfl

theorem map_fst_outcomes (h : List (Event κ μ ρ ε)) : (outcomes h).map Prod.fst = calls h := by
  induction h with
  | nil => rfl
  | cons e h ih =>
    cases e with
    | call k r => rw [outcomes_cons_call, List.map_cons, ih, calls_cons_call]
    | deliver m r => rw [outcomes_cons_deliver, ih, calls_cons_deliver]

/-- Counting events that are calls is counting outcomes. -/
theorem countP_eq_countP_outcomes {p : Event κ μ ρ ε → Bool} (hp : ∀ m r, p (.deliver m r) = false)
    (h : List (Event κ μ ρ ε)) : h.countP p = (outcomes h).countP fun o => p (.call o.1 o.2) := by
  induction h with
  | nil => rfl
  | cons e h ih =>
    cases e with
    | call k r => rw [List.countP_cons, outcomes_cons_call, List.countP_cons, ih]
    | deliver m r =>
      rw [List.countP_cons_of_neg (by simp [hp]), outcomes_cons_deliver, ih]

/-- Collecting from events that are calls is collecting from outcomes. -/
theorem filterMap_eq_filterMap_outcomes {α : Type*} {f : Event κ μ ρ ε → Option α}
    (hf : ∀ m r, f (.deliver m r) = none) (h : List (Event κ μ ρ ε)) :
    h.filterMap f = (outcomes h).filterMap fun o => f (.call o.1 o.2) := by
  induction h with
  | nil => rfl
  | cons e h ih =>
    cases e with
    | call k r => rw [List.filterMap_cons, outcomes_cons_call, List.filterMap_cons, ih]
    | deliver m r => rw [List.filterMap_cons_none (hf m r), outcomes_cons_deliver, ih]

/-- The guard under which a call is made only with nothing in flight. -/
def Eager (_ : List (Event κ μ ρ ε)) (c : Config σ μ) : Event κ μ ρ ε → Prop
  | .call _ _ => c.inFlight = 0
  | .deliver _ _ => True

instance [DecidableEq μ] (h : List (Event κ μ ρ ε)) (c : Config σ μ) (e : Event κ μ ρ ε) :
    Decidable (Eager h c e) :=
  match e with
  | .call _ _ => inferInstanceAs (Decidable (c.inFlight = 0))
  | .deliver _ _ => isTrue trivial

/-- The calls up to one of a list, where the list is one call followed by calls of one kind. -/
theorem suffix_map_append {α : Type*} {f : α → κ} {k k₀ : κ} {ks : List κ} {vs : List α}
    (hs : k :: ks <:+ vs.map f ++ [k₀]) :
    (k = k₀ ∧ ks = []) ∨ ∃ v ws, v :: ws <:+ vs ∧ k = f v ∧ ks = ws.map f ++ [k₀] := by
  induction vs with
  | nil =>
    rcases List.suffix_cons_iff.mp hs with heq | hs
    · exact .inl (List.cons.inj heq)
    · cases List.suffix_nil.mp hs
  | cons v vs ih =>
    rcases List.suffix_cons_iff.mp hs with heq | hs
    · obtain ⟨rfl, rfl⟩ := List.cons.inj heq
      exact .inr ⟨v, vs, List.suffix_rfl, rfl, rfl⟩
    · refine (ih hs).imp_right fun ⟨w, ws, hw, hk, hks⟩ => ?_
      exact ⟨w, ws, hw.trans (List.suffix_cons _ _), hk, hks⟩

namespace Machine

variable {M : Machine σ κ μ ρ ε} {G : List (Event κ μ ρ ε) → Config σ μ → Event κ μ ρ ε → Prop}
  {c₀ c : Config σ μ} {h : List (Event κ μ ρ ε)}

/-- A call can always be executed, if only to fail. -/
theorem exists_step_of_call (M : Machine σ κ μ ρ ε) (c : Config σ μ) (k : κ) :
    ∃ r c', M.Step c (.call k r) c' := by
  cases hk : M.call k c.state with
  | ok eff => exact ⟨_, _, .callOk hk⟩
  | error f => exact ⟨_, _, .callError hk⟩

theorem Step.of_call_ok {c c' : Config σ μ} {k : κ} {r : Except ε ρ} {eff : Effect σ μ ρ}
    (hs : M.Step c (.call k r) c') (hk : M.call k c.state = .ok eff) :
    r = .ok eff.value ∧ c' = ⟨eff.state, c.inFlight + eff.relays⟩ := by
  cases hs with
  | callOk hk' =>
    cases hk.symm.trans hk'
    exact ⟨rfl, rfl⟩
  | callError hk' => cases hk.symm.trans hk'

theorem Step.of_call_error {c c' : Config σ μ} {k : κ} {r : Except ε ρ} {f : ε}
    (hs : M.Step c (.call k r) c') (hk : M.call k c.state = .error f) : r = .error f ∧ c' = c := by
  cases hs with
  | callOk hk' => cases hk.symm.trans hk'
  | callError hk' =>
    cases hk.symm.trans hk'
    exact ⟨rfl, rfl⟩

/-- On the same state a call has the same result. -/
theorem Step.call_result {c c' c₁ c₁' : Config σ μ} {k : κ} {r r' : Except ε ρ}
    (hs : M.Step c (.call k r) c₁) (hs' : M.Step c' (.call k r') c₁')
    (hstate : c.state = c'.state) : r = r' := by
  cases hk : M.call k c.state with
  | ok eff => rw [(hs.of_call_ok hk).1, (hs'.of_call_ok (hstate ▸ hk)).1]
  | error f => rw [(hs.of_call_error hk).1, (hs'.of_call_error (hstate ▸ hk)).1]

/-- Without a call nothing has happened, if nothing was in flight. -/
theorem Run.eq_nil_of_calls {s : σ} (hr : M.Run G ⟨s, 0⟩ h c) (hcalls : calls h = []) :
    h = [] ∧ c = ⟨s, 0⟩ := by
  induction hr with
  | nil => exact ⟨rfl, rfl⟩
  | @step h c c' e hr hs hg ih =>
    cases e with
    | call k r => cases hcalls
    | deliver m r =>
      obtain ⟨-, rfl⟩ := ih hcalls
      cases hs with
      | deliverOk hm hk => exact absurd hm.symm (Multiset.cons_ne_zero)
      | deliverError hm hk => exact absurd hm.symm (Multiset.cons_ne_zero)

/-- A run that has made some of the calls of a list so far has made them in its order. -/
theorem Run.along {ks : List κ} (hr : M.Run G c₀ h c) (hks : calls h <:+ ks) :
    M.Run (fun h c e => G h c e ∧ calls (e :: h) <:+ ks) c₀ h c := by
  induction hr with
  | nil => exact .nil
  | @step h c c' e hr hs hg ih =>
    refine (ih ?_).step hs ⟨hg, hks⟩
    cases e with
    | call k r => exact (List.suffix_cons k (calls h)).trans hks
    | deliver m r => exact hks

/-! ### Eager runs -/

/-- Where a relay weighs more than the relays it emits, a delivery makes the flight lighter. -/
theorem Step.carried_lt {c' : Config σ μ} {m : μ} {r : Except ε ρ} (w : μ → ℕ)
    (hpos : ∀ m, 0 < w m)
    (hw : ∀ {m s eff}, M.relay m s = .ok eff → (eff.relays.map w).sum < w m)
    (hs : M.Step c (.deliver m r) c') : c'.carried w < c.carried w := by
  cases hs with
  | deliverOk hrest hk =>
    have := hw hk
    rw [Config.carried_add, Config.carried, hrest, Multiset.map_cons, Multiset.sum_cons]
    omega
  | @deliverError _ rest _ hrest hk =>
    rw [Config.carried, Config.carried, hrest, Multiset.map_cons, Multiset.sum_cons]
    exact Nat.lt_add_of_pos_left (hpos m)

/-- Where deliveries are allowed and each makes the configuration smaller, the flight can be
emptied. -/
theorem Run.exists_drained (size : Config σ μ → ℕ) (hG : ∀ h c m r, G h c (.deliver m r))
    (hsize : ∀ {h c m r c'}, M.Run G c₀ h c → M.Step c (.deliver m r) c' → size c' < size c)
    (hr : M.Run G c₀ h c) :
    ∃ h' c', M.Run G c₀ h' c' ∧ c'.inFlight = 0 ∧ calls h' = calls h := by
  induction hn : size c using Nat.strong_induction_on generalizing h c with
  | h n ih =>
    rcases Multiset.empty_or_exists_mem c.inFlight with hq | ⟨m, hm⟩
    · exact ⟨h, c, hr, hq, rfl⟩
    obtain ⟨r, c', hs⟩ := exists_step_of_mem (M := M) hm
    have hlt : size c' < n := hn ▸ hsize hr hs
    exact ih _ hlt (h := .deliver m r :: h) (hr.step hs (hG h c m r)) rfl

/-- Where a relay weighs more than the relays it emits, every list of calls, latest first, has an
eager run. -/
theorem exists_eager_run (w : μ → ℕ) (hpos : ∀ m, 0 < w m)
    (hw : ∀ {m s eff}, M.relay m s = .ok eff → (eff.relays.map w).sum < w m)
    (s : σ) (ks : List κ) :
    ∃ h c, M.Run Eager ⟨s, 0⟩ h c ∧ c.inFlight = 0 ∧ calls h = ks := by
  induction ks with
  | nil => exact ⟨[], ⟨s, 0⟩, .nil, rfl, rfl⟩
  | cons k ks ih =>
    obtain ⟨h, c, hr, hq, hcalls⟩ := ih
    obtain ⟨r, c', hs⟩ := M.exists_step_of_call c k
    obtain ⟨h', c'', hr', hq', hcalls'⟩ := (hr.step hs hq).exists_drained (Config.carried w)
      (fun _ _ _ _ => trivial) fun _ hs => hs.carried_lt w hpos hw
    exact ⟨h', c'', hr', hq', by rw [hcalls', calls_cons_call, hcalls]⟩

/-! ### Contracts without relays -/

variable {N : Machine τ κ Empty ρ ε}

/-- Every list of calls, latest first, has a run. -/
theorem exists_run (N : Machine τ κ Empty ρ ε) (t : τ) (ks : List κ) :
    ∃ h c, N.Run Anything ⟨t, 0⟩ h c ∧ calls h = ks := by
  obtain ⟨h, c, hr, -, hcalls⟩ :=
    exists_eager_run (M := N) (fun m => m.elim) (fun m => m.elim) (fun {m} => m.elim) t ks
  exact ⟨h, c, hr.mono fun _ _ _ _ => trivial, hcalls⟩

/-- A call that emits nothing leaves nothing in flight. -/
theorem Run.step_call {G : List (Event κ Empty ρ ε) → Config τ Empty → Event κ Empty ρ ε → Prop}
    {c₀ : Config τ Empty} {h : List (Event κ Empty ρ ε)} {t t' : τ} {k : κ} {v : ρ}
    (hr : N.Run G c₀ h ⟨t, 0⟩) (hk : N.call k t = .ok ⟨t', v, []⟩)
    (hg : G h ⟨t, 0⟩ (.call k (.ok v))) : N.Run G c₀ (.call k (.ok v) :: h) ⟨t', 0⟩ := by
  simpa using hr.step (.callOk hk) hg

/-- **Induction over runs without relays.** Only the two kinds of calls are left. -/
theorem Run.call_invariant
    {G : List (Event κ Empty ρ ε) → Config τ Empty → Event κ Empty ρ ε → Prop}
    {c₀ c : Config τ Empty} {h : List (Event κ Empty ρ ε)}
    {I : List (Event κ Empty ρ ε) → Config τ Empty → Prop} (hr : N.Run G c₀ h c)
    (hnil : I [] c₀)
    (hcall : ∀ {h c k eff}, N.Run G c₀ h c → I h c → G h c (.call k (.ok eff.value)) →
      N.call k c.state = .ok eff →
      I (.call k (.ok eff.value) :: h) ⟨eff.state, c.inFlight + eff.relays⟩)
    (hcallError : ∀ {h c k f}, N.Run G c₀ h c → I h c → G h c (.call k (.error f)) →
      N.call k c.state = .error f → I (.call k (.error f) :: h) c) :
    I h c :=
  hr.invariant hnil hcall hcallError (fun {_ _ m} => m.elim) (fun {_ _ m} => m.elim)

/-- The state after a list of calls, latest first. -/
def stateAfter (N : Machine τ κ Empty ρ ε) (t : τ) : List κ → τ
  | [] => t
  | k :: ks =>
    match N.call k (stateAfter N t ks) with
    | .ok eff => eff.state
    | .error _ => stateAfter N t ks

/-- The state a run of a contract without relays is in is determined by its calls. -/
theorem Run.state_eq {G : List (Event κ Empty ρ ε) → Config τ Empty → Event κ Empty ρ ε → Prop}
    {c₀ c : Config τ Empty} {h : List (Event κ Empty ρ ε)} (hr : N.Run G c₀ h c) :
    c.state = N.stateAfter c₀.state (calls h) := by
  refine hr.call_invariant (I := fun h c => c.state = N.stateAfter c₀.state (calls h)) rfl ?_ ?_
  · intro h c k eff _ ih _ hk
    rw [ih] at hk
    rw [calls_cons_call, stateAfter, hk]
  · intro h c k f _ ih _ hk
    rw [ih] at hk
    rw [calls_cons_call, stateAfter, hk, ih]

/-- **Determinacy.** Two runs of a contract without relays that make the same calls return the same
and end in the same state. -/
theorem Run.outcomes_unique {G G' : List (Event κ Empty ρ ε) → Config τ Empty →
      Event κ Empty ρ ε → Prop} {c₀ c c' : Config τ Empty} {h h' : List (Event κ Empty ρ ε)}
    (hr : N.Run G c₀ h c) (hr' : N.Run G' c₀ h' c') (hcalls : calls h = calls h') :
    outcomes h = outcomes h' ∧ c.state = c'.state := by
  refine ⟨?_, by rw [hr.state_eq, hr'.state_eq, hcalls]⟩
  induction hr generalizing h' c' with
  | nil =>
    cases hr' with
    | nil => rfl
    | @step _ _ _ e _ _ _ =>
      cases e with
      | call k r => cases hcalls
      | deliver m r => exact m.elim
  | @step h c₁ c₂ e hr hs hg ih =>
    cases e with
    | deliver m r => exact m.elim
    | call k r =>
      cases hr' with
      | nil => cases hcalls
      | @step h' c₁' c₂' e' hr' hs' hg' =>
        cases e' with
        | deliver m r => exact m.elim
        | call k' r' =>
          obtain ⟨rfl, hks⟩ := List.cons.inj hcalls
          have hstate : c₁.state = c₁'.state := by rw [hr.state_eq, hr'.state_eq, hks]
          rw [outcomes_cons_call, outcomes_cons_call, ih hr' hks]
          rw [hs.call_result hs' hstate]

/-- **Refinement of a contract without relays.** Let `R` relate the history and the configuration
of a run to a state of `N`. If each call has the same result on both sides and keeps `R`, and each
delivery keeps `R` with `N` doing nothing, then every run is matched by a run of `N` with the same
calls and results. -/
theorem Run.refines {R : List (Event κ μ ρ ε) → Config σ μ → τ → Prop} {t₀ : τ}
    (hr : M.Run G c₀ h c) (hnil : R [] c₀ t₀)
    (hcall : ∀ {h c k eff t}, R h c t → G h c (.call k (.ok eff.value)) →
      M.call k c.state = .ok eff →
      ∃ t', N.call k t = .ok ⟨t', eff.value, []⟩ ∧
        R (.call k (.ok eff.value) :: h) ⟨eff.state, c.inFlight + eff.relays⟩ t')
    (hcallError : ∀ {h c k f t}, R h c t → G h c (.call k (.error f)) →
      M.call k c.state = .error f → N.call k t = .error f ∧ R (.call k (.error f) :: h) c t)
    (hdeliver : ∀ {h s m rest eff t}, R h ⟨s, m ::ₘ rest⟩ t → M.relay m s = .ok eff →
      R (.deliver m (.ok eff.value) :: h) ⟨eff.state, rest + eff.relays⟩ t)
    (hdeliverError : ∀ {h s m rest f t}, R h ⟨s, m ::ₘ rest⟩ t → M.relay m s = .error f →
      R (.deliver m (.error f) :: h) ⟨s, rest⟩ t) :
    ∃ h' t, N.Run Anything ⟨t₀, 0⟩ h' ⟨t, 0⟩ ∧ outcomes h' = outcomes h ∧ R h c t := by
  refine hr.invariant (I := fun h c =>
    ∃ h' t, N.Run Anything ⟨t₀, 0⟩ h' ⟨t, 0⟩ ∧ outcomes h' = outcomes h ∧ R h c t)
    ⟨[], t₀, .nil, rfl, hnil⟩ ?_ ?_ ?_ ?_
  · rintro h c k eff - ⟨h', t, hr', hout, hR⟩ hg hk
    obtain ⟨t', hk', hR'⟩ := hcall hR hg hk
    refine ⟨.call k (.ok eff.value) :: h', t', ?_, ?_, hR'⟩
    · exact hr'.step_call hk' trivial
    · rw [outcomes_cons_call, outcomes_cons_call, hout]
  · rintro h c k f - ⟨h', t, hr', hout, hR⟩ hg hk
    obtain ⟨hk', hR'⟩ := hcallError hR hg hk
    refine ⟨.call k (.error f) :: h', t, hr'.step (.callError hk') trivial, ?_, hR'⟩
    rw [outcomes_cons_call, outcomes_cons_call, hout]
  · rintro h s m rest eff - ⟨h', t, hr', hout, hR⟩ - hk
    exact ⟨h', t, hr', hout, hdeliver hR hk⟩
  · rintro h s m rest f - ⟨h', t, hr', hout, hR⟩ - hk
    exact ⟨h', t, hr', hout, hdeliverError hR hk⟩

end Machine

end RelayMachine

end RelayContracts
