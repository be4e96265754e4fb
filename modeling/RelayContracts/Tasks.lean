import RelayContracts.ReadProgram
import Mathlib.Logic.Function.Basic
import Mathlib.Logic.Relation

/-!
# Tasks on a shared store

Tasks run side by side on one store. A task reads one place after another, and at its end it commits
everything it writes at once. Nothing is locked in between, so what a task has read may have been
overwritten when it commits.

Tasks are `Independent` on a store if, run alone on it, none of them writes what another one reads
or writes. Then it does not matter how they are interleaved: each of them ends as it does alone, and
the store is the one they leave when they run one after another.

## Main definitions

* `Commits` — what a task writes, and where
* `Step`, `Reachable` — the tasks, interleaved in any way
* `inOrder` — the tasks one after another
* `Independent`

## Main results

* `Reachable.done_eq`, `Reachable.not_failed` — each task ends as it does alone
* `Reachable.eq_inOrder` — when all have ended, the store is that of `inOrder`
* `Reachable.exists_done` — all of them can be brought to their end
* `exists_all_done` — without independence, tasks that overwrite each other can all succeed
-/

namespace RelayContracts

namespace Tasks

open ReadProgram

variable {K A W R ι : Type}

/-- What is written at the end of a task, and where. -/
structure Commits (W K A : Type) where
  /-- The store after the writes. -/
  commit : W → (K → A) → K → A
  /-- The places that are written. -/
  keys : W → List K
  /-- Other places keep their values. -/
  commit_of_not_mem : ∀ {w : W} {k : K} (s : K → A), k ∉ keys w → commit w s k = s k
  /-- What is written does not depend on the store. -/
  commit_of_mem : ∀ {w : W} {k : K} (s s' : K → A), k ∈ keys w → commit w s k = commit w s' k

/-- A task: it ends with what it writes and its result, or it fails. -/
abbrev Job (K A W R : Type) := ReadProgram K A (Option (W × R))

/-- How far a task is. -/
inductive TaskState (K A W R : Type) where
  /-- It is running. -/
  | running (p : Job K A W R)
  /-- It has committed. -/
  | done (r : R)
  /-- It has failed. -/
  | failed

/-- The store and the tasks. -/
structure State (ι K A W R : Type) where
  /-- The store. -/
  store : K → A
  /-- The tasks. -/
  task : ι → TaskState K A W R

variable {c : Commits W K A} {jobs : ι → Job K A W R} {s₀ : K → A} {s s' : State ι K A W R}
  {i j : ι} {k : K}

/-- One task goes on. -/
inductive Step [DecidableEq ι] (c : Commits W K A) : State ι K A W R → State ι K A W R → Prop
  /-- It reads one place. -/
  | read {s : State ι K A W R} {i : ι} {k : K} {next : A → Job K A W R}
      (h : s.task i = .running (.read k next)) :
      Step c s { s with task := Function.update s.task i (.running (next (s.store k))) }
  /-- It commits what it writes. -/
  | commit {s : State ι K A W R} {i : ι} {w : W} {r : R}
      (h : s.task i = .running (.done (some (w, r)))) :
      Step c s ⟨c.commit w s.store, Function.update s.task i (.done r)⟩
  /-- It fails. -/
  | fail {s : State ι K A W R} {i : ι} (h : s.task i = .running (.done none)) :
      Step c s { s with task := Function.update s.task i .failed }

/-- All tasks at their beginning. -/
def start (jobs : ι → Job K A W R) (s₀ : K → A) : State ι K A W R :=
  { store := s₀, task := fun i => .running (jobs i) }

/-- What the tasks can come to. -/
def Reachable [DecidableEq ι] (c : Commits W K A) (jobs : ι → Job K A W R) (s₀ : K → A)
    (s : State ι K A W R) : Prop :=
  Relation.ReflTransGen (Step c) (start jobs s₀) s

/-- Tasks one after another. -/
def inOrder (c : Commits W K A) (jobs : ι → Job K A W R) :
    List ι → (K → A) → Option (List R × (K → A))
  | [], s => some ([], s)
  | i :: is, s => do
    let (w, r) ← eval s (jobs i)
    let (rs, s) ← inOrder c jobs is (c.commit w s)
    return (r :: rs, s)

theorem inOrder_map {κ : Type} (jobs : ι → Job K A W R) (f : κ → ι) (is : List κ) (s : K → A) :
    inOrder c (fun i => jobs (f i)) is s = inOrder c jobs (is.map f) s := by
  induction is generalizing s with
  | nil => rfl
  | cons i is ih => simp only [List.map_cons, inOrder, ih]

/-- Each result is that of its task, on some store. -/
theorem forall₂_of_inOrder {is : List ι} {s st : K → A} {rs : List R}
    (h : inOrder c jobs is s = some (rs, st)) :
    List.Forall₂ (fun i r => ∃ s w, eval s (jobs i) = some (w, r)) is rs := by
  induction is generalizing s rs with
  | nil =>
    cases h
    exact .nil
  | cons i is ih =>
    obtain ⟨⟨w, r⟩, heval, h⟩ := Option.bind_eq_some_iff.mp h
    obtain ⟨⟨rs', st'⟩, hrest, h⟩ := Option.bind_eq_some_iff.mp h
    cases h
    exact .cons ⟨s, w, heval⟩ (ih hrest)

/-- No task writes what another one reads or writes, each of them being run alone. -/
structure Independent (c : Commits W K A) (jobs : ι → Job K A W R) (s₀ : K → A) : Prop where
  /-- Nothing is read that another task writes. -/
  reads : ∀ {i j w r k}, i ≠ j → eval s₀ (jobs i) = some (w, r) → k ∈ c.keys w →
    k ∉ queried s₀ (jobs j)
  /-- Nothing is written that another task writes. -/
  writes : ∀ {i j w r w' r' k}, i ≠ j → eval s₀ (jobs i) = some (w, r) →
    eval s₀ (jobs j) = some (w', r') → k ∈ c.keys w → k ∉ c.keys w'

/-! ### The invariant -/

/-- Each task is on the way it takes alone, and the store holds what the ended ones have written. -/
structure Inv (c : Commits W K A) (jobs : ι → Job K A W R) (s₀ : K → A) (s : State ι K A W R) :
    Prop where
  /-- A running task will end as it does alone, and read nothing else. -/
  running : ∀ {i p}, s.task i = .running p →
    eval s₀ p = eval s₀ (jobs i) ∧ ∀ k ∈ queried s₀ p, k ∈ queried s₀ (jobs i)
  /-- A task that has ended has the result it has alone, and what it wrote is still there. -/
  done : ∀ {i r}, s.task i = .done r → ∃ w, eval s₀ (jobs i) = some (w, r) ∧
    ∀ k ∈ c.keys w, s.store k = c.commit w s₀ k
  /-- A task that has failed fails alone. -/
  failed : ∀ {i}, s.task i = .failed → eval s₀ (jobs i) = none
  /-- What no ended task has written is as it was. -/
  untouched : ∀ {k}, (∀ i r w, s.task i = .done r → eval s₀ (jobs i) = some (w, r) →
    k ∉ c.keys w) → s.store k = s₀ k

theorem Inv.start (c : Commits W K A) (jobs : ι → Job K A W R) (s₀ : K → A) :
    Inv c jobs s₀ (start jobs s₀) where
  running := by
    intro i p h
    obtain rfl : jobs i = p := TaskState.running.inj h
    exact ⟨rfl, fun _ hk => hk⟩
  done := by
    intro i r h
    cases h
  failed := by
    intro i h
    cases h
  untouched := fun _ => rfl

/-- What a running task reads next is as it was at the beginning. -/
theorem Inv.store_eq (hind : Independent c jobs s₀) (h : Inv c jobs s₀ s) {p : Job K A W R}
    (hi : s.task i = .running p) (hk : k ∈ queried s₀ p) : s.store k = s₀ k := by
  refine h.untouched fun j r w hj hw hmem => ?_
  have hne : j ≠ i := by
    rintro rfl
    rw [hi] at hj
    cases hj
  exact hind.reads hne hw hmem ((h.running hi).2 k hk)

theorem Inv.eval_eq (hind : Independent c jobs s₀) (h : Inv c jobs s₀ s) {p : Job K A W R}
    (hi : s.task i = .running p) : eval s.store p = eval s₀ (jobs i) :=
  (eval_congr fun _ hk => h.store_eq hind hi hk).trans (h.running hi).1

/-- Where all tasks have ended, the store is determined. -/
theorem Inv.store_unique (h : Inv c jobs s₀ s) (h' : Inv c jobs s₀ s')
    (hdone : ∀ i, ∃ r, s.task i = .done r) (hdone' : ∀ i, ∃ r, s'.task i = .done r) :
    s.store = s'.store := by
  funext k
  by_cases hk : ∃ i w r, eval s₀ (jobs i) = some (w, r) ∧ k ∈ c.keys w
  · obtain ⟨i, w, r, hw, hmem⟩ := hk
    obtain ⟨r₁, hr₁⟩ := hdone i
    obtain ⟨r₂, hr₂⟩ := hdone' i
    obtain ⟨w₁, hw₁, hstore₁⟩ := h.done hr₁
    obtain ⟨w₂, hw₂, hstore₂⟩ := h'.done hr₂
    obtain ⟨rfl, -⟩ := Prod.mk.inj (Option.some.inj (hw.symm.trans hw₁))
    obtain ⟨rfl, -⟩ := Prod.mk.inj (Option.some.inj (hw.symm.trans hw₂))
    rw [hstore₁ k hmem, hstore₂ k hmem]
  · have hnone : ∀ i r w, eval s₀ (jobs i) = some (w, r) → k ∉ c.keys w :=
      fun i r w hw hmem => hk ⟨i, w, r, hw, hmem⟩
    rw [h.untouched fun i r w _ hw => hnone i r w hw, h'.untouched fun i r w _ hw => hnone i r w hw]

variable [DecidableEq ι]

/-- A step that does not commit leaves the store and the ended tasks alone. -/
theorem Inv.update (h : Inv c jobs s₀ s) {t t' : TaskState K A W R} (hi : s.task i = t)
    (ht : ∀ r, t ≠ .done r) (ht' : ∀ r, t' ≠ .done r)
    (hrunning : ∀ p, t' = .running p →
      eval s₀ p = eval s₀ (jobs i) ∧ ∀ k ∈ queried s₀ p, k ∈ queried s₀ (jobs i))
    (hfailed : t' = .failed → eval s₀ (jobs i) = none) :
    Inv c jobs s₀ { s with task := Function.update s.task i t' } := by
  have hcases : ∀ j, Function.update s.task i t' j = if j = i then t' else s.task j :=
    fun j => by rw [Function.update_apply]
  refine ⟨fun {j p} hj => ?_, fun {j r} hj => ?_, fun {j} hj => ?_, fun {k} hk => ?_⟩
  · simp only [hcases] at hj
    split at hj
    · next heq => exact heq ▸ hrunning p hj
    · exact h.running hj
  · simp only [hcases] at hj
    split at hj
    · exact absurd hj (ht' r)
    · exact h.done hj
  · simp only [hcases] at hj
    split at hj
    · next heq => exact heq ▸ hfailed hj
    · exact h.failed hj
  · refine h.untouched fun j r w hj hw => hk j r w ?_ hw
    simp only [hcases]
    split
    · next heq => exact absurd (hi ▸ heq ▸ hj) (ht r)
    · exact hj

/-- A commit leaves what the other tasks have written alone. -/
theorem Inv.commit (hind : Independent c jobs s₀) (h : Inv c jobs s₀ s) {w : W} {r : R}
    (hi : s.task i = .running (.done (some (w, r)))) :
    Inv c jobs s₀ ⟨c.commit w s.store, Function.update s.task i (.done r)⟩ := by
  have halone : eval s₀ (jobs i) = some (w, r) := (h.running hi).1.symm
  have hcases : ∀ j, Function.update s.task i (.done r) j = if j = i then .done r else s.task j :=
    fun j => by rw [Function.update_apply]
  refine ⟨fun {j p} hj => ?_, fun {j r'} hj => ?_, fun {j} hj => ?_, fun {k} hk => ?_⟩
  · simp only [hcases] at hj
    split at hj
    · cases hj
    · exact h.running hj
  · simp only [hcases] at hj
    split at hj
    · next heq =>
      cases hj
      exact ⟨w, heq ▸ halone, fun k hk => c.commit_of_mem s.store s₀ hk⟩
    · next hne =>
      obtain ⟨w', hw', hstore⟩ := h.done hj
      refine ⟨w', hw', fun k hk => ?_⟩
      change c.commit w s.store k = c.commit w' s₀ k
      rw [c.commit_of_not_mem s.store (hind.writes hne hw' halone hk)]
      exact hstore k hk
  · simp only [hcases] at hj
    split at hj
    · cases hj
    · exact h.failed hj
  · have hnot : k ∉ c.keys w := hk i r w (by simp) halone
    change c.commit w s.store k = s₀ k
    rw [c.commit_of_not_mem s.store hnot]
    refine h.untouched fun j r' w' hj hw' => hk j r' w' ?_ hw'
    simp only [hcases]
    split
    · next heq =>
      rw [heq, hi] at hj
      cases hj
    · exact hj

/-- Every step keeps the invariant. -/
theorem Inv.step (hind : Independent c jobs s₀) (h : Inv c jobs s₀ s) (hstep : Step c s s') :
    Inv c jobs s₀ s' := by
  cases hstep with
  | @read i k next hi =>
    have hstore : s.store k = s₀ k := h.store_eq hind hi List.mem_cons_self
    refine h.update hi (by simp) (by simp) (fun p hp => ?_) (by simp)
    obtain rfl := TaskState.running.inj hp
    rw [hstore]
    obtain ⟨heval, hqueried⟩ := h.running hi
    exact ⟨heval, fun k' hk' => hqueried k' (List.mem_cons_of_mem k hk')⟩
  | commit hi => exact h.commit hind hi
  | fail hi => exact h.update hi (by simp) (by simp) (by simp) fun _ => (h.running hi).1.symm

theorem Reachable.inv (hind : Independent c jobs s₀) (h : Reachable c jobs s₀ s) :
    Inv c jobs s₀ s := by
  induction h with
  | refl => exact .start c jobs s₀
  | tail _ hstep ih => exact ih.step hind hstep

/-! ### What the tasks come to -/

/-- A task that has ended has the result it has alone. -/
theorem Reachable.done_eq (hind : Independent c jobs s₀) (h : Reachable c jobs s₀ s) {r : R}
    (hi : s.task i = .done r) : ∃ w, eval s₀ (jobs i) = some (w, r) := by
  obtain ⟨w, hw, -⟩ := (h.inv hind).done hi
  exact ⟨w, hw⟩

/-- A task that does not fail alone does not fail. -/
theorem Reachable.not_failed (hind : Independent c jobs s₀) (h : Reachable c jobs s₀ s)
    (hi : (eval s₀ (jobs i)).isSome) : s.task i ≠ .failed := by
  intro hfailed
  rw [(h.inv hind).failed hfailed] at hi
  cases hi

/-- A running task can read all it reads at a stretch. -/
theorem run_reads {p : Job K A W R} (hi : s.task i = .running p) :
    Relation.ReflTransGen (Step c) s
      { s with task := Function.update s.task i (.running (.done (eval s.store p))) } := by
  induction p generalizing s with
  | done o =>
    rw [eval, ← hi, Function.update_eq_self]
  | read k next ih =>
    have hnext := ih (s.store k)
      (s := { s with task := Function.update s.task i (.running (next (s.store k))) })
      (Function.update_self ..)
    rw [Function.update_idem] at hnext
    exact .head (.read hi) hnext

/-- A running task can be run to its end at a stretch. -/
theorem run_job {p : Job K A W R} {w : W} {r : R} (hi : s.task i = .running p)
    (hp : eval s.store p = some (w, r)) :
    Relation.ReflTransGen (Step c) s
      ⟨c.commit w s.store, Function.update s.task i (.done r)⟩ := by
  have hreads := run_reads (c := c) hi
  rw [hp] at hreads
  have hcommit := Step.commit (c := c)
    (s := { s with task := Function.update s.task i (.running (.done (some (w, r)))) })
    (Function.update_self ..)
  rw [Function.update_idem] at hcommit
  exact hreads.tail hcommit

/-- Tasks one after another are one way to interleave them. -/
theorem run_inOrder {is : List ι} {rs : List R} {st : K → A} (hnodup : is.Nodup)
    (hi : ∀ i ∈ is, s.task i = .running (jobs i))
    (h : inOrder c jobs is s.store = some (rs, st)) :
    ∃ s', Relation.ReflTransGen (Step c) s s' ∧ s'.store = st ∧
      is.map s'.task = rs.map .done ∧ ∀ i ∉ is, s'.task i = s.task i := by
  induction is generalizing s rs with
  | nil =>
    cases h
    exact ⟨s, .refl, rfl, rfl, fun _ _ => rfl⟩
  | cons i is ih =>
    obtain ⟨hnot, hnodup⟩ := List.nodup_cons.mp hnodup
    obtain ⟨⟨w, r⟩, heval, h⟩ := Option.bind_eq_some_iff.mp h
    obtain ⟨⟨rs', st'⟩, hrest, h⟩ := Option.bind_eq_some_iff.mp h
    cases h
    have hrun := run_job (c := c) (hi i List.mem_cons_self) heval
    obtain ⟨s', hrun', hstore, htasks, hother⟩ := ih
      (s := ⟨c.commit w s.store, Function.update s.task i (.done r)⟩) hnodup (fun j hj => by
        have hne : j ≠ i := fun heq => hnot (heq ▸ hj)
        simpa [hne] using hi j (List.mem_cons_of_mem i hj)) hrest
    refine ⟨s', hrun.trans hrun', hstore, ?_, fun j hj => ?_⟩
    · rw [List.map_cons, List.map_cons, htasks, hother i hnot]
      simp
    · obtain ⟨hne, hj⟩ := not_or.mp (List.mem_cons.not.mp hj)
      rw [hother j hj]
      simp [hne]

/-- Independent tasks that succeed alone succeed one after another, with the same results. -/
theorem exists_inOrder (hind : Independent c jobs s₀) (h : Inv c jobs s₀ s) {is : List ι}
    (hnodup : is.Nodup) (hi : ∀ i ∈ is, s.task i = .running (jobs i))
    (halone : ∀ i ∈ is, (eval s₀ (jobs i)).isSome) :
    ∃ rs st, inOrder c jobs is s.store = some (rs, st) := by
  induction is generalizing s with
  | nil => exact ⟨[], s.store, rfl⟩
  | cons i is ih =>
    obtain ⟨hnot, hnodup⟩ := List.nodup_cons.mp hnodup
    obtain ⟨⟨w, r⟩, heval⟩ := Option.isSome_iff_exists.mp (halone i List.mem_cons_self)
    rw [← h.eval_eq hind (hi i List.mem_cons_self)] at heval
    have hinv : Inv c jobs s₀ ⟨c.commit w s.store, Function.update s.task i (.done r)⟩ := by
      have hrun := run_job (c := c) (hi i List.mem_cons_self) heval
      exact hrun.recOn h fun _ hstep ih => ih.step hind hstep
    obtain ⟨rs, st, hrest⟩ := ih hinv hnodup
      (fun j hj => by
        have hne : j ≠ i := fun heq => hnot (heq ▸ hj)
        simpa [hne] using hi j (List.mem_cons_of_mem i hj))
      fun j hj => halone j (List.mem_cons_of_mem i hj)
    exact ⟨r :: rs, st, by simp [inOrder, heval, hrest]⟩

/-- **When all tasks have ended**, the store is the one that they leave one after another, in any
order, and they have the same results. -/
theorem Reachable.eq_inOrder (hind : Independent c jobs s₀) (h : Reachable c jobs s₀ s)
    (hdone : ∀ i, ∃ r, s.task i = .done r) {is : List ι} (hnodup : is.Nodup)
    (hall : ∀ i, i ∈ is) :
    ∃ rs, inOrder c jobs is s₀ = some (rs, s.store) ∧ is.map s.task = rs.map .done := by
  have halone : ∀ i ∈ is, (eval s₀ (jobs i)).isSome := by
    intro i _
    obtain ⟨r, hr⟩ := hdone i
    obtain ⟨w, hw⟩ := h.done_eq hind hr
    rw [hw]
    rfl
  obtain ⟨rs, st, hseq⟩ :=
    exists_inOrder (s := start jobs s₀) hind (.start c jobs s₀) hnodup (fun _ _ => rfl) halone
  obtain ⟨s', hrun, rfl, htasks, -⟩ := run_inOrder (s := start jobs s₀) hnodup (fun _ _ => rfl) hseq
  have hdone' : ∀ i, ∃ r, s'.task i = .done r := by
    intro i
    have hmem : s'.task i ∈ rs.map TaskState.done := htasks ▸ List.mem_map_of_mem (hall i)
    obtain ⟨r, -, hr⟩ := List.mem_map.mp hmem
    exact ⟨r, hr.symm⟩
  have hstore := (h.inv hind).store_unique (Reachable.inv hind hrun) hdone hdone'
  refine ⟨rs, hstore ▸ hseq, htasks ▸ List.map_congr_left fun i _ => ?_⟩
  obtain ⟨r, hr⟩ := hdone i
  obtain ⟨r', hr'⟩ := hdone' i
  obtain ⟨w, hw⟩ := h.done_eq hind hr
  obtain ⟨w', hw'⟩ := Reachable.done_eq hind hrun hr'
  obtain ⟨-, rfl⟩ := Prod.mk.inj (Option.some.inj (hw.symm.trans hw'))
  rw [hr, hr']

/-- **All tasks can be brought to their end**, from wherever they are. -/
theorem Reachable.exists_done (hind : Independent c jobs s₀) (h : Reachable c jobs s₀ s)
    (halone : ∀ i, (eval s₀ (jobs i)).isSome) (is : List ι) :
    ∃ s', Relation.ReflTransGen (Step c) s s' ∧ ∀ i ∈ is, ∃ r, s'.task i = .done r := by
  induction is with
  | nil => exact ⟨s, .refl, by simp⟩
  | cons i is ih =>
    obtain ⟨s₁, hrun, hdone⟩ := ih
    have hreach : Reachable c jobs s₀ s₁ := h.trans hrun
    cases hi : s₁.task i with
    | done r => exact ⟨s₁, hrun, List.forall_mem_cons.mpr ⟨⟨r, hi⟩, hdone⟩⟩
    | failed => exact absurd hi (hreach.not_failed hind (halone i))
    | running p =>
      obtain ⟨⟨w, r⟩, heval⟩ := Option.isSome_iff_exists.mp (halone i)
      rw [← (hreach.inv hind).eval_eq hind hi] at heval
      refine ⟨_, hrun.trans (run_job hi heval), List.forall_mem_cons.mpr ⟨⟨r, by simp⟩, ?_⟩⟩
      intro j hj
      obtain ⟨r', hr'⟩ := hdone j hj
      have hne : j ≠ i := by
        rintro rfl
        rw [hi] at hr'
        cases hr'
      exact ⟨r', by simpa [hne] using hr'⟩

/-! ### Without independence -/

/-- Tasks can all have read what they read before one of them commits. -/
theorem exists_all_read (c : Commits W K A) (jobs : ι → Job K A W R) (s₀ : K → A) (is : List ι) :
    ∃ s, Reachable c jobs s₀ s ∧ s.store = s₀ ∧
      (∀ i ∈ is, s.task i = .running (.done (eval s₀ (jobs i)))) ∧
      ∀ i ∉ is, s.task i = .running (jobs i) := by
  induction is with
  | nil => exact ⟨start jobs s₀, .refl, rfl, by simp, fun _ _ => rfl⟩
  | cons i is ih =>
    obtain ⟨s, hrun, hstore, hread, hother⟩ := ih
    by_cases hi : i ∈ is
    · exact ⟨s, hrun, hstore, List.forall_mem_cons.mpr ⟨hread i hi, hread⟩,
        fun j hj => hother j fun hmem => hj (List.mem_cons_of_mem i hmem)⟩
    · refine ⟨_, hrun.trans (run_reads (hother i hi)), hstore, ?_, fun j hj => ?_⟩
      · refine List.forall_mem_cons.mpr ⟨by simp [hstore], fun j hj => ?_⟩
        have hne : j ≠ i := fun heq => hi (heq ▸ hj)
        simpa [hne] using hread j hj
      · obtain ⟨hne, hj⟩ := not_or.mp (List.mem_cons.not.mp hj)
        simpa [hne] using hother j hj

/-- Tasks that are about to commit can all do so. -/
theorem exists_all_commit {w : ι → W} {r : ι → R} {is : List ι} (hnodup : is.Nodup)
    (hi : ∀ i ∈ is, s.task i = .running (.done (some (w i, r i)))) :
    ∃ s', Relation.ReflTransGen (Step c) s s' ∧ (∀ i ∈ is, s'.task i = .done (r i)) ∧
      ∀ i ∉ is, s'.task i = s.task i := by
  induction is generalizing s with
  | nil => exact ⟨s, .refl, by simp, fun _ _ => rfl⟩
  | cons i is ih =>
    obtain ⟨hnot, hnodup⟩ := List.nodup_cons.mp hnodup
    have hcommit : Step c s _ := .commit (hi i List.mem_cons_self)
    obtain ⟨s', hrun, hdone, hother⟩ := ih
      (s := ⟨c.commit (w i) s.store, Function.update s.task i (.done (r i))⟩) hnodup
      fun j hj => by
        have hne : j ≠ i := fun heq => hnot (heq ▸ hj)
        simpa [hne] using hi j (List.mem_cons_of_mem i hj)
    refine ⟨s', .head hcommit hrun, List.forall_mem_cons.mpr ⟨?_, hdone⟩, fun j hj => ?_⟩
    · rw [hother i hnot]
      simp
    · obtain ⟨hne, hj⟩ := not_or.mp (List.mem_cons.not.mp hj)
      rw [hother j hj]
      simp [hne]

/-- **Tasks that succeed alone can all succeed**, with the results they have alone, whatever they
overwrite. -/
theorem exists_all_done {w : ι → W} {r : ι → R} {is : List ι} (hnodup : is.Nodup)
    (h : ∀ i ∈ is, eval s₀ (jobs i) = some (w i, r i)) :
    ∃ s, Reachable c jobs s₀ s ∧ ∀ i ∈ is, s.task i = .done (r i) := by
  obtain ⟨s, hrun, -, hread, -⟩ := exists_all_read c jobs s₀ is
  obtain ⟨s', hrun', hdone, -⟩ :=
    exists_all_commit (c := c) hnodup fun i hi => h i hi ▸ hread i hi
  exact ⟨s', hrun.trans hrun', hdone⟩

end Tasks

end RelayContracts
