import RelayContracts.FixedWidth

/-!
# Loops that end

A model with fuel always returns something, and does not say whether the loop has come to its end.
`Loops cond body s r` says that it has: the loop `while cond do body`, started in `s`, ends with
`r`, which is a state in which `cond` does not hold or the error with which the body failed.

`Loops.of_variant` is the rule by which a loop is shown to end without an error.
-/

namespace RelayContracts

/-- The loop `while cond do body`, started in a state, ends with a result. -/
inductive Loops {σ ε : Type} (cond : σ → Prop) (body : σ → Except ε σ) : σ → Except ε σ → Prop
  /-- The condition does not hold. -/
  | exit {s : σ} (hcond : ¬ cond s) : Loops cond body s (.ok s)
  /-- One round, and the rest. -/
  | next {s s' : σ} {r : Except ε σ} (hcond : cond s) (hbody : body s = .ok s')
      (hrest : Loops cond body s' r) : Loops cond body s r
  /-- The body fails. -/
  | fault {s : σ} {e : ε} (hcond : cond s) (hbody : body s = .error e) :
      Loops cond body s (.error e)

namespace Loops

variable {σ ε : Type} {cond : σ → Prop} {body : σ → Except ε σ} {s : σ}

/-- **The rule for loops.** If a round keeps `I` and lowers its number wherever it is run, the loop
ends without an error, in a state with `I`. -/
theorem of_variant (I : σ → ℕ → Prop)
    (hround : ∀ s n, I s n → cond s → ∃ s', body s = .ok s' ∧ ∃ m < n, I s' m) {n : ℕ}
    (hs : I s n) : ∃ s' m, Loops cond body s (.ok s') ∧ I s' m ∧ ¬ cond s' := by
  induction n using Nat.strongRecOn generalizing s with
  | ind n ih =>
    by_cases hcond : cond s
    · obtain ⟨s₁, hbody, m, hlt, hs₁⟩ := hround s n hs hcond
      obtain ⟨s', k, hloop, hs', hend⟩ := ih m hlt hs₁
      exact ⟨s', k, .next hcond hbody hloop, hs', hend⟩
    · exact ⟨s, n, .exit hcond, hs, hcond⟩

end Loops

end RelayContracts
