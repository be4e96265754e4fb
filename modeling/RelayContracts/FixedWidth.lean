import Mathlib.Algebra.Group.Nat.Defs
import Mathlib.Data.List.Forall2
import Mathlib.Tactic.Common

/-!
# Fixed-width unsigned arithmetic

The contracts compute with `uint32`, `uint64` and `uint256`. A value of type `uintw` is modelled
by a natural number, and the operations say explicitly what happens at `2 ^ w`.

What happens there is a property of the runtime and not of the contract, so it is a parameter:
under `Overflow.trap` the fragment fails, under `Overflow.wrap` the result is reduced. Solidity
from 0.8 on traps. For a runtime whose behaviour is not fixed by the sources, a statement made for
every `Overflow` holds whichever of the two it does.

## Main definitions

* `Fault` — why a fragment failed
* `addU`, `subU`, `subUWith`, `mulU`, `divU` — arithmetic at a width
* `toLeBytes` — the bytes of a value
-/

universe u

namespace RelayContracts

/-- Why a fragment failed. -/
inductive Fault where
  /-- An `assert` or a `require` did not hold. -/
  | assertion
  /-- A value left the range of its type. -/
  | overflow
  /-- An array was accessed past its end. -/
  | outOfRange
  /-- A value was divided by zero. -/
  | divisionByZero
  deriving DecidableEq, Repr

/-- What the runtime does when a value leaves the range of its type. -/
inductive Overflow where
  /-- The fragment fails. -/
  | trap
  /-- The value is reduced modulo `2 ^ w`. -/
  | wrap
  deriving DecidableEq, Repr

section Bind

variable {ε α β : Type u}

@[simp] theorem ok_bind (a : α) (f : α → Except ε β) : ((.ok a : Except ε α) >>= f) = f a := rfl

@[simp] theorem error_bind (e : ε) (f : α → Except ε β) :
    ((.error e : Except ε α) >>= f) = .error e := rfl

/-- A computation that ends well has ended well at its first bind. -/
theorem exists_of_bind_eq_ok {x : Except ε α} {f : α → Except ε β} {b : β}
    (h : (x >>= f) = .ok b) : ∃ a, x = .ok a ∧ f a = .ok b := by
  cases x with
  | error e => cases h
  | ok a => exact ⟨a, rfl, h⟩

/-- Where only the result is packed up after the bind. -/
theorem bind_ok_eq_ok {x : Except ε α} {f : α → β} {b : β} :
    (x >>= fun a => .ok (f a)) = .ok b ↔ ∃ a, x = .ok a ∧ b = f a := by
  constructor
  · intro h
    obtain ⟨a, ha, h⟩ := exists_of_bind_eq_ok h
    cases h
    exact ⟨a, ha, rfl⟩
  · rintro ⟨a, rfl, rfl⟩
    rfl

theorem bind_ok_eq_error {x : Except ε α} {f : α → β} {e : ε} :
    (x >>= fun a => .ok (f a)) = .error e ↔ x = .error e := by
  cases x with
  | error e' => simp
  | ok a => simp

/-- A computation that fails has failed at its first bind or after it. -/
theorem of_bind_eq_error {x : Except ε α} {f : α → Except ε β} {e : ε}
    (h : (x >>= f) = .error e) : x = .error e ∨ ∃ a, x = .ok a ∧ f a = .error e := by
  cases x with
  | error e' =>
    left
    cases h
    rfl
  | ok a => exact .inr ⟨a, rfl, h⟩

/-- A computation fails in a certain way only if one of its steps does. -/
theorem bind_ne_error {x : Except ε α} {f : α → Except ε β} {e : ε} (hx : x ≠ .error e)
    (hf : ∀ a, x = .ok a → f a ≠ .error e) : (x >>= f) ≠ .error e := by
  intro h
  rcases of_bind_eq_error h with h | ⟨a, ha, h⟩
  · exact hx h
  · exact hf a ha h

theorem toOption_eq_some {x : Except ε α} {a : α} : x.toOption = some a ↔ x = .ok a := by
  cases x with
  | error e => simp [Except.toOption]
  | ok b => simp [Except.toOption]

/-- An element on the left of a relation of lists has a partner. -/
theorem exists_right_of_mem {R : α → β → Prop} {l : List α} {l' : List β}
    (h : List.Forall₂ R l l') {x : α} (hx : x ∈ l) : ∃ y ∈ l', R x y := by
  induction h with
  | nil => cases hx
  | cons hxy _ ih =>
    rcases List.mem_cons.mp hx with rfl | hx
    · exact ⟨_, List.mem_cons_self, hxy⟩
    · obtain ⟨y, hy, hxy⟩ := ih hx
      exact ⟨y, List.mem_cons_of_mem _ hy, hxy⟩

/-- So has an element on the right. -/
theorem exists_left_of_mem {R : α → β → Prop} {l : List α} {l' : List β}
    (h : List.Forall₂ R l l') {y : β} (hy : y ∈ l') : ∃ x ∈ l, R x y :=
  exists_right_of_mem (R := flip R) (List.Forall₂.flip h) hy

/-- A function that is applied to a whole list, with what it gives for each element. -/
theorem mapM_eq_ok {f : α → Except ε β} {l : List α} {ys : List β} :
    l.mapM f = .ok ys ↔ List.Forall₂ (fun x y => f x = .ok y) l ys := by
  induction l generalizing ys with
  | nil =>
    rw [List.mapM_nil, List.forall₂_nil_left_iff]
    exact ⟨fun h => (Except.ok.inj h).symm, fun h => congrArg Except.ok h.symm⟩
  | cons x l ih =>
    rw [List.mapM_cons, List.forall₂_cons_left_iff]
    constructor
    · intro h
      obtain ⟨y, hy, h⟩ := exists_of_bind_eq_ok h
      obtain ⟨ys', hys', h⟩ := exists_of_bind_eq_ok h
      cases h
      exact ⟨y, ys', hy, ih.mp hys', rfl⟩
    · rintro ⟨y, ys', hy, hys', rfl⟩
      rw [hy, ok_bind, ih.mpr hys', ok_bind]
      rfl

/-- What is read off the results can be read off the arguments. -/
theorem map_eq_of_mapM_eq_ok {γ : Type*} {f : α → Except ε β} {l : List α} {ys : List β}
    (h : l.mapM f = .ok ys) {g : β → γ} {g' : α → γ} (hg : ∀ x y, f x = .ok y → g y = g' x) :
    ys.map g = l.map g' := by
  have h' := mapM_eq_ok.mp h
  clear h
  induction h' with
  | nil => rfl
  | cons hy _ ih => rw [List.map_cons, List.map_cons, hg _ _ hy, ih]

theorem exists_mem_of_mapM_eq_ok {f : α → Except ε β} {l : List α} {ys : List β}
    (h : l.mapM f = .ok ys) {y : β} (hy : y ∈ ys) : ∃ x ∈ l, f x = .ok y :=
  exists_left_of_mem (mapM_eq_ok.mp h) hy

theorem exists_eq_ok_of_mapM_eq_ok {f : α → Except ε β} {l : List α} {ys : List β}
    (h : l.mapM f = .ok ys) {x : α} (hx : x ∈ l) : ∃ y ∈ ys, f x = .ok y :=
  exists_right_of_mem (mapM_eq_ok.mp h) hx

theorem exists_mapM_eq_ok {f : α → Except ε β} {l : List α} (h : ∀ x ∈ l, ∃ y, f x = .ok y) :
    ∃ ys, l.mapM f = .ok ys := by
  induction l with
  | nil => exact ⟨[], rfl⟩
  | cons x l ih =>
    obtain ⟨y, hy⟩ := h x List.mem_cons_self
    obtain ⟨ys, hys⟩ := ih fun z hz => h z (List.mem_cons_of_mem x hz)
    exact ⟨y :: ys, mapM_eq_ok.mpr (.cons hy (mapM_eq_ok.mp hys))⟩

end Bind

/-- A fault, reported as another error. -/
def faultAs {ε α : Type} (e : ε) : Except Fault α → Except ε α
  | .ok a => .ok a
  | .error _ => .error e

theorem faultAs_eq_ok {ε α : Type} {e : ε} {x : Except Fault α} {a : α} :
    faultAs e x = .ok a ↔ x = .ok a := by
  cases x with
  | ok b => simp [faultAs]
  | error f => simp [faultAs]

theorem faultAs_bind {ε α β : Type} (e : ε) (x : Except Fault α) (f : α → Except Fault β) :
    faultAs e (x >>= f) = faultAs e x >>= fun a => faultAs e (f a) := by
  cases x with
  | ok a => rfl
  | error f => rfl

/-- A function that requires something first has found it true. -/
theorem of_require_eq_ok {α : Type u} {p : Prop} [Decidable p] {x : Except Fault α} {b : α}
    (h : (if p then x else .error .assertion) = .ok b) : p ∧ x = .ok b := by
  by_cases hp : p
  · rw [if_pos hp] at h
    exact ⟨hp, h⟩
  · rw [if_neg hp] at h
    cases h

/-- Addition of two `uintw` values. -/
def addU (p : Overflow) (w a b : ℕ) : Except Fault ℕ :=
  if a + b < 2 ^ w then .ok (a + b)
  else
    match p with
    | .trap => .error .overflow
    | .wrap => .ok ((a + b) % 2 ^ w)

/-- Subtraction of two unsigned values that traps below zero. -/
def subU (a b : ℕ) : Except Fault ℕ := if b ≤ a then .ok (a - b) else .error .overflow

/-- Subtraction of two `uintw` values. -/
def subUWith (p : Overflow) (w a b : ℕ) : Except Fault ℕ :=
  if b ≤ a then .ok (a - b)
  else
    match p with
    | .trap => .error .overflow
    | .wrap => .ok (2 ^ w + a - b)

/-- Multiplication of two `uintw` values. -/
def mulU (p : Overflow) (w a b : ℕ) : Except Fault ℕ :=
  if a * b < 2 ^ w then .ok (a * b)
  else
    match p with
    | .trap => .error .overflow
    | .wrap => .ok ((a * b) % 2 ^ w)

/-- Division of two unsigned values. -/
def divU (a b : ℕ) : Except Fault ℕ := if b = 0 then .error .divisionByZero else .ok (a / b)

/-- In range, the runtime's choice does not show. -/
theorem addU_of_lt {p : Overflow} {w a b : ℕ} (h : a + b < 2 ^ w) : addU p w a b = .ok (a + b) :=
  if_pos h

theorem addU_trap_eq_ok {w a b c : ℕ} :
    addU .trap w a b = .ok c ↔ a + b < 2 ^ w ∧ c = a + b := by
  rw [addU]
  split
  · simp [*, eq_comm]
  · simp [*]

/-- A sum is in range, whatever the runtime does. -/
theorem lt_of_addU {p : Overflow} {w a b c : ℕ} (h : addU p w a b = .ok c) : c < 2 ^ w := by
  rw [addU.eq_def] at h
  split at h
  · cases h
    assumption
  · cases p with
    | trap => cases h
    | wrap =>
      cases h
      exact Nat.mod_lt _ (Nat.two_pow_pos w)

theorem addU_ne_outOfRange {p : Overflow} {w a b : ℕ} : addU p w a b ≠ .error .outOfRange := by
  rw [addU.eq_def]
  split
  · simp
  · cases p <;> simp

theorem subU_eq_ok {a b c : ℕ} : subU a b = .ok c ↔ b ≤ a ∧ c = a - b := by
  rw [subU]
  split
  · simp [*, eq_comm]
  · simp [*]

theorem mulU_of_lt {p : Overflow} {w a b : ℕ} (h : a * b < 2 ^ w) : mulU p w a b = .ok (a * b) :=
  if_pos h

theorem divU_of_pos {a b : ℕ} (h : 0 < b) : divU a b = .ok (a / b) :=
  if_neg (Nat.ne_of_gt h)

theorem subU_of_le {a b : ℕ} (h : b ≤ a) : subU a b = .ok (a - b) := if_pos h

theorem subUWith_of_le {p : Overflow} {w a b : ℕ} (h : b ≤ a) : subUWith p w a b = .ok (a - b) :=
  if_pos h

/-! ### Bytes -/

/-- The last `k` bytes of a number, the lowest first. -/
def toLeBytes : ℕ → ℕ → List UInt8
  | 0, _ => []
  | k + 1, v => UInt8.ofNat v :: toLeBytes k (v / 256)

@[simp] theorem length_toLeBytes (k v : ℕ) : (toLeBytes k v).length = k := by
  induction k generalizing v with
  | zero => rfl
  | succ k ih => rw [toLeBytes, List.length_cons, ih]

/-- The bytes say which number it was. -/
theorem toLeBytes_inj {k v v' : ℕ} (hv : v < 256 ^ k) (hv' : v' < 256 ^ k)
    (h : toLeBytes k v = toLeBytes k v') : v = v' := by
  induction k generalizing v v' with
  | zero => omega
  | succ k ih =>
    rw [Nat.pow_succ] at hv hv'
    rw [toLeBytes, toLeBytes, List.cons.injEq] at h
    have hhigh : v / 256 = v' / 256 := ih (by omega) (by omega) h.2
    have hlow : v % 256 = v' % 256 := congrArg UInt8.toNat h.1
    omega

end RelayContracts
