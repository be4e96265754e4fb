import Mathlib.Data.List.Nodup
import Mathlib.Data.List.Range

/-!
# Slots that are written once

A slice of known length, each place of which is written once, by whoever comes first: this is how
results of concurrent work are collected in order. The order of the writes is a list, and what is
shown is that it does not matter.

## Main definitions

* `writeAll` — writes to places of a list, one after another

## Main results

* `writeAll_eq_map` — places that are all written, in any order, hold what was written
-/

namespace RelayContracts

namespace Slots

variable {α : Type} {writes : List (ℕ × α)} {slots : List α} {i : ℕ} {a : α}

/-- Writes to places of a list, one after another. -/
def writeAll (writes : List (ℕ × α)) (slots : List α) : List α :=
  writes.foldl (fun slots w => slots.set w.1 w.2) slots

@[simp] theorem length_writeAll (writes : List (ℕ × α)) (slots : List α) :
    (writeAll writes slots).length = slots.length := by
  induction writes generalizing slots with
  | nil => rfl
  | cons w writes ih => exact (ih _).trans List.length_set

theorem getElem?_writeAll_of_not_mem (h : i ∉ writes.map Prod.fst) :
    (writeAll writes slots)[i]? = slots[i]? := by
  induction writes generalizing slots with
  | nil => rfl
  | cons w writes ih =>
    rw [List.map_cons, List.mem_cons, not_or] at h
    exact (ih h.2).trans (List.getElem?_set_ne (Ne.symm h.1))

theorem getElem?_writeAll_of_mem (hnodup : (writes.map Prod.fst).Nodup) (h : (i, a) ∈ writes)
    (hi : i < slots.length) : (writeAll writes slots)[i]? = some a := by
  induction writes generalizing slots with
  | nil => cases h
  | cons w writes ih =>
    rw [List.map_cons, List.nodup_cons] at hnodup
    rcases List.mem_cons.mp h with rfl | h
    · exact (getElem?_writeAll_of_not_mem hnodup.1).trans (List.getElem?_set_self hi)
    · exact ih hnodup.2 h (by rwa [List.length_set])

/-- **Places that are all written, in any order, hold what was written.** -/
theorem writeAll_eq_map (f : ℕ → α) {order : List ℕ} {n : ℕ} (horder : order.Perm (List.range n))
    (hslots : slots.length = n) :
    writeAll (order.map fun i => (i, f i)) slots = (List.range n).map f := by
  have hkeys : (order.map fun i => (i, f i)).map Prod.fst = order := by
    rw [List.map_map]
    exact List.map_id order
  refine List.ext_getElem? fun i => ?_
  by_cases hi : i < n
  · have hmem : (i, f i) ∈ order.map fun i => (i, f i) :=
      List.mem_map.mpr ⟨i, horder.mem_iff.mpr (List.mem_range.mpr hi), rfl⟩
    have hnodup : ((order.map fun i => (i, f i)).map Prod.fst).Nodup := by
      rw [hkeys]
      exact horder.nodup_iff.mpr List.nodup_range
    rw [getElem?_writeAll_of_mem hnodup hmem (by omega)]
    simp [hi]
  · rw [List.getElem?_eq_none (by simp; omega), List.getElem?_eq_none (by simp; omega)]

theorem writeAll_append (writes more : List (ℕ × α)) (slots : List α) :
    writeAll more (writeAll writes slots) = writeAll (writes ++ more) slots := by
  rw [writeAll, writeAll, writeAll, List.foldl_append]

end Slots

end RelayContracts
