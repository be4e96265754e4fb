import RelayContracts.RelayMachine

/-!
# Translating the runs of a relay machine

Two contracts that differ in the types they compute with have runs that can be compared event by
event: states, calls and relays of one are translated to those of the other, results are the same.
If the two do the same along a list of calls (`Translates`), the runs with these calls correspond,
in both directions.

That the fragments do the same need only be shown at configurations whose translation is reached by
the second machine. So what is known of the runs of the second machine can be used to show it.

## Main definitions

* `Effect.map`, `Config.map`, `Event.map` — translations
* `Translates` — two machines do the same along a list of calls

## Main results

* `Translates.run` — a run is translated to a run
* `Translates.exists_run` — every run with translated calls is the translation of a run
-/

namespace RelayContracts

namespace RelayMachine

variable {σ σ' κ κ' μ μ' ρ ε : Type*}

/-- An effect, translated. -/
def Effect.map (f : σ → σ') (g : μ → μ') (eff : Effect σ μ ρ) : Effect σ' μ' ρ :=
  ⟨f eff.state, eff.value, eff.relays.map g⟩

/-- A configuration, translated. -/
def Config.map (f : σ → σ') (g : μ → μ') (c : Config σ μ) : Config σ' μ' :=
  ⟨f c.state, c.inFlight.map g⟩

/-- An event, translated. The result is the same. -/
def Event.map (q : κ → κ') (g : μ → μ') : Event κ μ ρ ε → Event κ' μ' ρ ε
  | .call k r => .call (q k) r
  | .deliver m r => .deliver (g m) r

theorem calls_map (q : κ → κ') (g : μ → μ') (h : List (Event κ μ ρ ε)) :
    calls (h.map (Event.map q g)) = (calls h).map q := by
  induction h with
  | nil => rfl
  | cons e h ih =>
    cases e with
    | call k r => rw [List.map_cons, Event.map, calls_cons_call, ih, calls_cons_call, List.map_cons]
    | deliver m r => rw [List.map_cons, Event.map, calls_cons_deliver, ih, calls_cons_deliver]

/-- What a configuration becomes when a fragment is executed, translated. -/
theorem Config.map_add (f : σ → σ') (g : μ → μ') (eff : Effect σ μ ρ) (rest : Multiset μ) :
    (⟨eff.state, rest + eff.relays⟩ : Config σ μ).map f g =
      ⟨(eff.map f g).state, rest.map g + ((eff.map f g).relays : List μ')⟩ := by
  rw [Config.map, Multiset.map_add, Multiset.map_coe]
  rfl

section Preimages

variable {α β : Type*}

theorem exists_ok_of_map {x : Except ε α} {f : α → β} {b : β} (h : x.map f = .ok b) :
    ∃ a, x = .ok a ∧ f a = b := by
  cases x with
  | error e => cases h
  | ok a => exact ⟨a, rfl, Except.ok.inj h⟩

theorem error_of_map {x : Except ε α} {f : α → β} {e : ε} (h : x.map f = .error e) :
    x = .error e := by
  cases x with
  | error e' => exact congrArg Except.error (Except.error.inj h)
  | ok a => cases h

theorem exists_cons_of_map {g : α → β} {s : Multiset α} {b : β} {t : Multiset β}
    (h : s.map g = b ::ₘ t) : ∃ a rest, s = a ::ₘ rest ∧ b = g a ∧ t = rest.map g := by
  obtain ⟨a, ha, rfl⟩ := Multiset.mem_map.mp (h ▸ Multiset.mem_cons_self b t)
  obtain ⟨rest, rfl⟩ := Multiset.exists_cons_of_mem ha
  rw [Multiset.map_cons, Multiset.cons_inj_right] at h
  exact ⟨a, rest, rfl, rfl, h.symm⟩

theorem exists_suffix_of_map {q : α → β} (hq : q.Injective) {b : β} {l l₁ : List α}
    (h : b :: l₁.map q <:+ l.map q) : ∃ a, b = q a ∧ a :: l₁ <:+ l := by
  obtain ⟨t, hsplit⟩ := h
  obtain ⟨l₂, l₃, rfl, -, htail⟩ := List.map_eq_append_iff.mp hsplit.symm
  obtain ⟨a, l₄, rfl, rfl, hrest⟩ := List.map_eq_cons_iff.mp htail
  obtain rfl := List.map_injective_iff.mpr hq hrest
  exact ⟨a, rfl, List.suffix_append _ _⟩

end Preimages

namespace Machine

/-- Along a list of calls, latest first, the fragments of `M` and their translations do the same. -/
structure Translates (M : Machine σ κ μ ρ ε) (M' : Machine σ' κ' μ' ρ ε) (f : σ → σ') (q : κ → κ')
    (g : μ → μ') (c₀ : Config σ μ) (ks : List κ) : Prop where
  /-- The calls do. -/
  call : ∀ {h : List (Event κ μ ρ ε)} {c : Config σ μ} {k : κ},
    M'.Run Anything (c₀.map f g) (h.map (Event.map q g)) (c.map f g) → k :: calls h <:+ ks →
    M'.call (q k) (f c.state) = (M.call k c.state).map (Effect.map f g)
  /-- The relays do. -/
  relay : ∀ {h : List (Event κ μ ρ ε)} {c : Config σ μ} {m : μ},
    M'.Run Anything (c₀.map f g) (h.map (Event.map q g)) (c.map f g) → calls h <:+ ks →
    m ∈ c.inFlight → M'.relay (g m) (f c.state) = (M.relay m c.state).map (Effect.map f g)

variable {M : Machine σ κ μ ρ ε} {M' : Machine σ' κ' μ' ρ ε} {f : σ → σ'} {q : κ → κ'} {g : μ → μ'}
  {c₀ c : Config σ μ} {ks : List κ} {h : List (Event κ μ ρ ε)}

/-- One step is translated to one step. -/
theorem Translates.step (ht : M.Translates M' f q g c₀ ks) {e : Event κ μ ρ ε} {c' : Config σ μ}
    (hr : M'.Run Anything (c₀.map f g) (h.map (Event.map q g)) (c.map f g)) (hs : M.Step c e c')
    (hks : calls (e :: h) <:+ ks) : M'.Step (c.map f g) (e.map q g) (c'.map f g) := by
  have hflight : ∀ {m rest}, c.inFlight = m ::ₘ rest →
      (c.map f g).inFlight = g m ::ₘ rest.map g :=
    fun {m rest} hm => (congrArg (Multiset.map g) hm).trans (Multiset.map_cons g m rest)
  cases hs with
  | @callOk k eff hk =>
    have hk' : M'.call (q k) (c.map f g).state = .ok (eff.map f g) :=
      (ht.call hr hks).trans (by rw [hk]; rfl)
    rw [Config.map_add]
    exact .callOk hk'
  | @callError k e hk =>
    have hk' : M'.call (q k) (c.map f g).state = .error e :=
      (ht.call hr hks).trans (by rw [hk]; rfl)
    exact .callError hk'
  | @deliverOk m rest eff hm hk =>
    have hk' : M'.relay (g m) (c.map f g).state = .ok (eff.map f g) :=
      (ht.relay hr hks (hm ▸ Multiset.mem_cons_self m rest)).trans (by rw [hk]; rfl)
    rw [Config.map_add]
    exact .deliverOk (hflight hm) hk'
  | @deliverError m rest e hm hk =>
    have hk' : M'.relay (g m) (c.map f g).state = .error e :=
      (ht.relay hr hks (hm ▸ Multiset.mem_cons_self m rest)).trans (by rw [hk]; rfl)
    exact .deliverError (hflight hm) hk'

/-- **A run is translated to a run.** -/
theorem Translates.run (ht : M.Translates M' f q g c₀ ks) (hr : M.Run Anything c₀ h c)
    (hks : calls h <:+ ks) :
    M'.Run Anything (c₀.map f g) (h.map (Event.map q g)) (c.map f g) := by
  induction hr with
  | nil => exact .nil
  | @step h _ _ e _ hs _ ih =>
    have hr' := ih ((calls_suffix (List.suffix_cons e h)).trans hks)
    exact hr'.step (ht.step hr' hs hks) trivial

/-- A step of the second machine comes from a step of the first one. -/
theorem Translates.exists_step (ht : M.Translates M' f q g c₀ ks) (hq : q.Injective)
    {e' : Event κ' μ' ρ ε} {c' : Config σ' μ'}
    (hr : M'.Run Anything (c₀.map f g) (h.map (Event.map q g)) (c.map f g))
    (hs : M'.Step (c.map f g) e' c') (hcalls : calls h <:+ ks)
    (hks : calls (e' :: h.map (Event.map q g)) <:+ ks.map q) :
    ∃ e c₁, M.Step c e c₁ ∧ e' = e.map q g ∧ c' = c₁.map f g ∧ calls (e :: h) <:+ ks := by
  cases hs with
  | callOk hk' =>
    rw [calls_cons_call, calls_map] at hks
    obtain ⟨k, rfl, hsuf⟩ := exists_suffix_of_map hq hks
    obtain ⟨eff, hk, rfl⟩ := exists_ok_of_map ((ht.call hr hsuf).symm.trans hk')
    exact ⟨_, _, .callOk hk, rfl, (Config.map_add f g eff c.inFlight).symm, hsuf⟩
  | callError hk' =>
    rw [calls_cons_call, calls_map] at hks
    obtain ⟨k, rfl, hsuf⟩ := exists_suffix_of_map hq hks
    exact ⟨_, _, .callError (error_of_map ((ht.call hr hsuf).symm.trans hk')), rfl, rfl, hsuf⟩
  | deliverOk hm' hk' =>
    obtain ⟨m, rest, hm, rfl, rfl⟩ := exists_cons_of_map hm'
    have hagree := ht.relay hr hcalls (hm ▸ Multiset.mem_cons_self m rest)
    obtain ⟨eff, hk, rfl⟩ := exists_ok_of_map (hagree.symm.trans hk')
    exact ⟨_, _, .deliverOk hm hk, rfl, (Config.map_add f g eff rest).symm, hcalls⟩
  | deliverError hm' hk' =>
    obtain ⟨m, rest, hm, rfl, rfl⟩ := exists_cons_of_map hm'
    have hagree := ht.relay hr hcalls (hm ▸ Multiset.mem_cons_self m rest)
    exact ⟨_, _, .deliverError hm (error_of_map (hagree.symm.trans hk')), rfl, rfl, hcalls⟩

/-- **Every run with translated calls is the translation of a run.** -/
theorem Translates.exists_run (ht : M.Translates M' f q g c₀ ks) (hq : q.Injective)
    {h' : List (Event κ' μ' ρ ε)} {c' : Config σ' μ'} (hr : M'.Run Anything (c₀.map f g) h' c')
    (hks : calls h' <:+ ks.map q) :
    ∃ h c, M.Run Anything c₀ h c ∧ h' = h.map (Event.map q g) ∧ c' = c.map f g ∧
      calls h <:+ ks := by
  induction hr with
  | nil => exact ⟨[], c₀, .nil, rfl, rfl, List.nil_suffix⟩
  | @step h' _ _ e' hr' hs _ ih =>
    obtain ⟨h, c, hr, rfl, rfl, hcalls⟩ :=
      ih ((calls_suffix (List.suffix_cons e' h')).trans hks)
    obtain ⟨e, c₁, hs₁, rfl, rfl, hcalls'⟩ := ht.exists_step hq hr' hs hcalls hks
    exact ⟨e :: h, c₁, hr.step hs₁ trivial, rfl, rfl, hcalls'⟩

end Machine

end RelayMachine

end RelayContracts
