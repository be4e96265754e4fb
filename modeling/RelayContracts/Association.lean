import Mathlib.Data.List.Nodup
import Mathlib.Logic.Function.Basic

/-!
# Maps as lists of pairs

A map whose iteration order is of interest is a list of pairs with distinct keys. These are the
facts about such lists that are used here: what is in the list is what is found in it, and writing
the pairs one after another into a function leaves what the list says. A partial function along a
list is `List.mapM` in `Option`.
-/

namespace RelayContracts

namespace Association

variable {α β : Type} [DecidableEq α] {l : List (α × β)} {a : α} {b : β}

theorem lookup_of_mem (hnodup : (l.map Prod.fst).Nodup) (h : (a, b) ∈ l) :
    l.lookup a = some b := by
  induction l with
  | nil => cases h
  | cons p l ih =>
    rw [List.map_cons, List.nodup_cons] at hnodup
    rw [List.lookup_cons]
    rcases List.mem_cons.mp h with rfl | h
    · simp
    · have hne : a ≠ p.1 := by
        rintro rfl
        exact hnodup.1 (List.mem_map.mpr ⟨_, h, rfl⟩)
      rw [beq_eq_false_iff_ne.mpr hne]
      exact ih hnodup.2 h

theorem mem_of_lookup (h : l.lookup a = some b) : (a, b) ∈ l := by
  obtain ⟨l₁, l₂, rfl, -⟩ := List.lookup_eq_some_iff.mp h
  simp

/-- A key that is not among those written keeps its value. -/
theorem foldl_update_of_not_mem (h : ∀ p ∈ l, p.1 ≠ a) (f : α → β) :
    l.foldl (fun f p => Function.update f p.1 p.2) f a = f a := by
  induction l generalizing f with
  | nil => rfl
  | cons p l ih =>
    rw [List.foldl_cons, ih fun q hq => h q (List.mem_cons_of_mem _ hq),
      Function.update_of_ne (h p List.mem_cons_self).symm]

/-- A key that is written has the value written, if all that is written to it is the same. -/
theorem foldl_update_of_mem (hmem : ∃ p ∈ l, p.1 = a) (h : ∀ p ∈ l, p.1 = a → p.2 = b)
    (f : α → β) : l.foldl (fun f p => Function.update f p.1 p.2) f a = b := by
  induction l generalizing f with
  | nil =>
    obtain ⟨p, hp, -⟩ := hmem
    cases hp
  | cons p l ih =>
    rw [List.foldl_cons]
    by_cases hl : ∃ q ∈ l, q.1 = a
    · exact ih hl (fun q hq => h q (List.mem_cons_of_mem _ hq)) _
    · have hp : p.1 = a := by
        obtain ⟨q, hq, hqa⟩ := hmem
        rcases List.mem_cons.mp hq with rfl | hq
        · exact hqa
        · exact absurd ⟨q, hq, hqa⟩ hl
      rw [foldl_update_of_not_mem (fun q hq hqa => hl ⟨q, hq, hqa⟩), ← hp, Function.update_self]
      exact h p List.mem_cons_self hp

/-- The value of a key that is written does not depend on the one before. -/
theorem foldl_update_congr (hmem : a ∈ l.map Prod.fst) (f g : α → β) :
    l.foldl (fun f p => Function.update f p.1 p.2) f a =
      l.foldl (fun f p => Function.update f p.1 p.2) g a := by
  induction l generalizing f g with
  | nil => cases hmem
  | cons p l ih =>
    rw [List.foldl_cons, List.foldl_cons]
    by_cases hl : a ∈ l.map Prod.fst
    · exact ih hl _ _
    · obtain rfl : a = p.1 := (List.mem_cons.mp hmem).resolve_right hl
      have hne : ∀ q ∈ l, q.1 ≠ p.1 := fun q hq heq => hl (heq ▸ List.mem_map_of_mem hq)
      rw [foldl_update_of_not_mem hne, foldl_update_of_not_mem hne, Function.update_self,
        Function.update_self]

/-! ### A partial function along a list -/

omit [DecidableEq α] in
theorem mapM_isSome {f : α → Option β} {l : List α} :
    (l.mapM f).isSome ↔ ∀ a ∈ l, (f a).isSome := by
  induction l with
  | nil => simp
  | cons a l ih =>
    rw [List.mapM_cons, List.forall_mem_cons, ← ih]
    cases f a <;> cases l.mapM f <;> simp

end Association

end RelayContracts
