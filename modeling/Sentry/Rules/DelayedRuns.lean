import Sentry.Rules.DelayedBuffer

/-!
# Lost delayed evaluations

Every pair that is still to be evaluated is in the project hash, which will be processed, or was
taken from it. A step breaks this in three ways only: a push after the project was taken off the
list and the hash was read, taking the project off the list though a pair was pushed since the hash
was read, or the cleanup of a field that was pushed again since. A run loses nothing if and only if
no step of it is one of these (`noneLost_iff_everyStep`).
-/

namespace Sentry.Rules.Delayed

open Library List Function State

variable {Pair Value : Type*}

namespace State

variable {batchSize : ℕ} {s : State Pair Value} {pair : Pair}

/-! ### Lookups after an update -/

theorem runs_setRun (r j : ℕ) (run : Run Pair Value) :
    (s.setRun r run).runs j = if j = r then run else s.runs j := by
  exact update_apply s.runs r run j

theorem tasks_setTask (key k : TaskKey) (task : Task Pair) :
    (s.setTask key task).tasks k = if k = key then task else s.tasks k := by
  exact update_apply s.tasks key task k

theorem setRun_setRun_self (r : ℕ) (run : Run Pair Value) :
    (s.setRun r run).setRun r (s.runs r) = s := by
  simp [setRun]

theorem setTask_setTask_self (key : TaskKey) (task : Task Pair) :
    (s.setTask key task).setTask key (s.tasks key) = s := by
  simp [setTask]

theorem batchHash_setBatch (r number i j : ℕ) (batch : List (Pair × Value)) :
    (s.setBatch r number batch).batchHash i j =
      if i = r ∧ j = number then batch else s.batchHash i j := by
  show Function.update s.batchHash r _ i j = _
  by_cases hi : i = r
  · subst hi
    rw [update_self, update_apply]
    simp
  · rw [update_of_ne hi, if_neg fun h ↦ hi h.1]

/-! ### Saved pairs -/

variable {run : Run Pair Value}

theorem Saved.setRun (h : s.Saved batchSize pair) {r : ℕ}
    (hread : 0 < batchSize → pair ∈ s.projectHash.map Prod.fst → (s.runs r).WillRead →
      run.WillRead ∨ (∃ j, s.tasks (j, none) = .queued) ∨ pair ∈ run.items.map Prod.fst)
    (hitems : 0 < batchSize → pair ∈ (s.runs r).items.map Prod.fst →
      pair ∈ run.items.map Prod.fst ∨
        ∃ number, pair ∈ (s.batchHash r number).map Prod.fst ∧ run.batch = some number)
    (hbatch : ∀ number, (s.runs r).batch = some number →
      run.batch = some number ∨ s.tasks (r, some number) = .queued) :
    (s.setRun r run).Saved batchSize pair := by
  have hself : (s.setRun r run).runs r = run := by rw [runs_setRun, if_pos rfl]
  have hother : ∀ j, j ≠ r → (s.setRun r run).runs j = s.runs j := fun j hj ↦ by
    rw [runs_setRun, if_neg hj]
  rcases h with ⟨hmem, hlist | ⟨hpos, j, hj⟩ | hqueued⟩ | hcount | ⟨hpos, j, hj⟩ | ⟨j, n, hj, hn⟩
  · exact Or.inl ⟨hmem, Or.inl hlist⟩
  · by_cases hjr : j = r
    · subst hjr
      rcases hread hpos hmem hj with hrun | hqueued | hrun
      · exact Or.inl ⟨hmem, Or.inr (Or.inl ⟨hpos, j, by rwa [hself]⟩)⟩
      · exact Or.inl ⟨hmem, Or.inr (Or.inr hqueued)⟩
      · exact Or.inr (Or.inr (Or.inl ⟨hpos, j, by rwa [hself]⟩))
    · exact Or.inl ⟨hmem, Or.inr (Or.inl ⟨hpos, j, by rwa [hother j hjr]⟩)⟩
  · exact Or.inl ⟨hmem, Or.inr (Or.inr hqueued)⟩
  · exact Or.inr (Or.inl hcount)
  · by_cases hjr : j = r
    · subst hjr
      rcases hitems hpos hj with hrun | ⟨n, hbatchHash, hrun⟩
      · exact Or.inr (Or.inr (Or.inl ⟨hpos, j, by rwa [hself]⟩))
      · exact Or.inr (Or.inr (Or.inr ⟨j, n, hbatchHash, Or.inr (by rwa [hself])⟩))
    · exact Or.inr (Or.inr (Or.inl ⟨hpos, j, by rwa [hother j hjr]⟩))
  · refine Or.inr (Or.inr (Or.inr ⟨j, n, hj, ?_⟩))
    by_cases hjr : j = r
    · subst hjr
      rcases hn with hqueued | hrun
      · exact Or.inl hqueued
      · exact (hbatch n hrun).elim (fun h ↦ Or.inr (by rwa [hself])) Or.inl
    · exact hn.imp id fun h ↦ by rwa [hother j hjr]

variable {key : TaskKey}

theorem Saved.setTask (h : s.Saved batchSize pair) {task : Task Pair}
    (hread : s.tasks key = .queued → pair ∈ (s.hashOf key).map Prod.fst →
      task = .queued ∨ pair ∈ task.uncounted)
    (hcount : pair ∈ (s.tasks key).uncounted → pair ∈ task.uncounted) :
    (s.setTask key task).Saved batchSize pair := by
  have hself : (s.setTask key task).tasks key = task := by rw [tasks_setTask, if_pos rfl]
  have hother : ∀ k, k ≠ key → (s.setTask key task).tasks k = s.tasks k := fun k hk ↦ by
    rw [tasks_setTask, if_neg hk]
  rcases h with ⟨hmem, hlist | hrun | ⟨j, hj⟩⟩ | ⟨k, hk⟩ | hitems | ⟨j, n, hj, hn⟩
  · exact Or.inl ⟨hmem, Or.inl hlist⟩
  · exact Or.inl ⟨hmem, Or.inr (Or.inl hrun)⟩
  · by_cases hjk : (j, none) = key
    · subst hjk
      rcases hread hj hmem with htask | htask
      · exact Or.inl ⟨hmem, Or.inr (Or.inr ⟨j, hself.trans htask⟩)⟩
      · exact Or.inr (Or.inl ⟨(j, none), by rwa [hself]⟩)
    · exact Or.inl ⟨hmem, Or.inr (Or.inr ⟨j, (hother _ hjk).trans hj⟩)⟩
  · by_cases hkk : k = key
    · subst hkk
      exact Or.inr (Or.inl ⟨k, by rw [hself]; exact hcount hk⟩)
    · exact Or.inr (Or.inl ⟨k, by rwa [hother k hkk]⟩)
  · exact Or.inr (Or.inr (Or.inl hitems))
  · rcases hn with hn | hn
    · by_cases hjk : (j, some n) = key
      · subst hjk
        rcases hread hn hj with htask | htask
        · exact Or.inr (Or.inr (Or.inr ⟨j, n, hj, Or.inl (hself.trans htask)⟩))
        · exact Or.inr (Or.inl ⟨(j, some n), by rwa [hself]⟩)
      · exact Or.inr (Or.inr (Or.inr ⟨j, n, hj, Or.inl ((hother _ hjk).trans hn)⟩))
    · exact Or.inr (Or.inr (Or.inr ⟨j, n, hj, Or.inr hn⟩))

theorem Saved.setBatch (h : s.Saved batchSize pair) {r number : ℕ}
    (hnot : ¬ s.BatchWillBeRead r number) (batch : List (Pair × Value)) :
    (s.setBatch r number batch).Saved batchSize pair := by
  rcases h with hhash | hcount | hitems | ⟨i, j, hmem, hread⟩
  · exact Or.inl hhash
  · exact Or.inr (Or.inl hcount)
  · exact Or.inr (Or.inr (Or.inl hitems))
  · refine Or.inr (Or.inr (Or.inr ⟨i, j, ?_, hread⟩))
    have hne : ¬ (i = r ∧ j = number) := by
      rintro ⟨rfl, rfl⟩
      exact hnot hread
    rwa [batchHash_setBatch, if_neg hne]

theorem mem_keys_delItem [DecidableEq Pair] {d : List (Pair × Value)} {x : Pair} :
    pair ∈ (delItem x d).map Prod.fst ↔ pair ∈ d.map Prod.fst ∧ pair ≠ x := by
  simp only [delItem, mem_map, mem_filter, decide_eq_true_eq]
  constructor
  · rintro ⟨item, ⟨hitem, hne⟩, rfl⟩
    exact ⟨⟨item, hitem, rfl⟩, hne⟩
  · rintro ⟨⟨item, hitem, rfl⟩, hne⟩
    exact ⟨item, ⟨hitem, hne⟩, rfl⟩

theorem Saved.deleteField [DecidableEq Pair] (h : s.Saved batchSize pair) {x : Pair}
    (htaken : pair = x → s.Taken batchSize pair) :
    { s with projectHash := delItem x s.projectHash }.Saved batchSize pair := by
  by_cases hx : pair = x
  · exact Or.inr (htaken hx)
  · exact h.imp (fun hhash ↦ ⟨mem_keys_delItem.mpr ⟨hhash.1, hx⟩, hhash.2⟩) id

/-! ### Coherent states -/

/-- A run has the tasks of later batches still to queue, and the fields of a batch that it has still
to delete are in the batch hash. -/
structure Coherent (s : State Pair Value) : Prop where
  fresh : ∀ r k, (s.runs r).Unqueued k → s.tasks (r, k) = .absent
  trimmed : ∀ r fetchTime number fields items,
    s.runs r = .trimming fetchTime number fields items →
      ∀ x ∈ fields, x ∈ (s.batchHash r number).map Prod.fst

theorem Coherent.setRun (h : s.Coherent) {r : ℕ}
    (hqueue : ∀ k, run.Unqueued k → (s.runs r).Unqueued k)
    (htrim : ∀ fetchTime number fields items, run = .trimming fetchTime number fields items →
      ∀ x ∈ fields, x ∈ (s.batchHash r number).map Prod.fst) : (s.setRun r run).Coherent where
  fresh := (forall_update_iff s.runs fun j run ↦
    ∀ k, run.Unqueued k → s.tasks (j, k) = .absent).mpr
      ⟨fun k hk ↦ h.fresh r k (hqueue k hk), fun j _ ↦ h.fresh j⟩
  trimmed := (forall_update_iff s.runs fun j run ↦ ∀ fetchTime number fields items,
    run = .trimming fetchTime number fields items →
      ∀ x ∈ fields, x ∈ (s.batchHash j number).map Prod.fst).mpr ⟨htrim, fun j _ ↦ h.trimmed j⟩

theorem Coherent.setTask (h : s.Coherent) (task : Task Pair)
    (hkey : ¬ (s.runs key.1).Unqueued key.2) : (s.setTask key task).Coherent := by
  constructor
  · intro r k hk
    have hne : (r, k) ≠ key := by
      rintro rfl
      exact hkey hk
    rw [tasks_setTask, if_neg hne]
    exact h.fresh r k hk
  · exact h.trimmed

theorem Coherent.queue (h : s.Coherent) {r : ℕ} {k₀ : Option ℕ}
    (hqueue : ∀ k, run.Unqueued k → k ≠ k₀ ∧ (s.runs r).Unqueued k)
    (htrim : ∀ fetchTime number fields items, run ≠ .trimming fetchTime number fields items) :
    ((s.setTask (r, k₀) .queued).setRun r run).Coherent := by
  have hrun : (s.setRun r run).Coherent := h.setRun (fun k hk ↦ (hqueue k hk).2)
    fun fetchTime n fields items heq ↦ absurd heq (htrim fetchTime n fields items)
  refine hrun.setTask .queued fun hk ↦ ?_
  rw [runs_setRun, if_pos rfl] at hk
  exact (hqueue k₀ hk).1 rfl

theorem Coherent.setBatch (h : s.Coherent) {r number : ℕ} (hbatch : (s.runs r).batch ≠ some number)
    (batch : List (Pair × Value)) : (s.setBatch r number batch).Coherent := by
  constructor
  · exact h.fresh
  · intro j fetchTime n fields items hrun x hx
    have hne : ¬ (j = r ∧ n = number) := by
      rintro ⟨rfl, rfl⟩
      exact hbatch (by rw [show s.runs j = _ from hrun]; rfl)
    rw [batchHash_setBatch, if_neg hne]
    exact h.trimmed j fetchTime n fields items hrun x hx

theorem Coherent.not_unqueued (h : s.Coherent) (hkey : s.tasks key ≠ .absent) :
    ¬ (s.runs key.1).Unqueued key.2 :=
  fun hqueue ↦ hkey (h.fresh key.1 key.2 hqueue)

theorem unqueued_of_batch {number : ℕ} (h : run.batch = some number) :
    run.Unqueued (some number) := by
  cases run with
  | trimming fetchTime n fields items =>
    obtain rfl : n = number := by simpa [Run.batch] using h
    exact Nat.le_refl n
  | _ => simp [Run.batch] at h

/-! ### What one step does -/

section

variable (h : s.Coherent) (r : ℕ)

include h r

theorem coherent_getSortedSet (fetchTime : ℚ≥0) : (s.getSortedSet r fetchTime).Coherent := by
  unfold getSortedSet
  split
  case h_1 hrun =>
    refine h.setRun (fun k _ ↦ by rw [hrun]; trivial) fun f n fields items heq ↦ ?_
    split at heq <;> simp at heq
  case h_2 => exact h

theorem coherent_getHashLength : (s.getHashLength batchSize r).Coherent := by
  unfold getHashLength
  split
  case h_1 hrun =>
    refine h.setRun (fun k _ ↦ by rw [hrun]; trivial) fun f n fields items heq ↦ ?_
    split at heq <;> simp at heq
  case h_2 => exact h

theorem coherent_delay : (s.delay r).Coherent := by
  unfold delay
  split
  case h_1 hrun =>
    exact h.queue (fun k hk ↦ hk.elim) fun f n fields its heq ↦ by simp at heq
  case h_2 number items hrun =>
    refine h.queue (fun k hk ↦ ?_) fun f n fields its heq ↦ by simp at heq
    cases k with
    | none => exact hk.elim
    | some n =>
      have hlt : number + 1 ≤ n := hk
      rw [hrun]
      exact ⟨by simp; omega, Nat.le_of_succ_le hlt⟩
  case h_3 => exact h

theorem coherent_getHash : (s.getHash r).Coherent := by
  unfold getHash
  split
  case h_1 hrun =>
    refine h.setRun (fun k _ ↦ by rw [hrun]; trivial) fun f n fields items heq ↦ ?_
    simp at heq
  case h_2 => exact h

theorem coherent_pushToHashBulk : (s.pushToHashBulk batchSize r).Coherent := by
  unfold pushToHashBulk
  split
  case h_1 fetchTime number items hrun =>
    split
    case h_1 => exact h.setRun (fun k hk ↦ hk.elim) fun f n fields its heq ↦ by simp at heq
    case h_2 =>
      have hbatch : (s.runs r).batch ≠ some number := by simp [hrun, Run.batch]
      refine (h.setBatch hbatch (items.take batchSize)).setRun (fun k hk ↦ ?_)
        fun f n fields its heq ↦ ?_
      · show (s.runs r).Unqueued k
        cases k with
        | none => exact hk.elim
        | some n =>
          rw [hrun]
          exact hk
      · simp only [Run.trimming.injEq] at heq
        obtain ⟨-, rfl, rfl, -⟩ := heq
        rw [batchHash_setBatch, if_pos ⟨rfl, rfl⟩]
        exact fun x hx ↦ hx
  case h_2 => exact h

end

theorem coherent_deleteHash [DecidableEq Pair] (h : s.Coherent) (r : ℕ) :
    (s.deleteHash r).Coherent := by
  unfold deleteHash
  split
  case h_1 fetchTime number x fields items hrun =>
    have hhash : { s with projectHash := delItem x s.projectHash }.Coherent :=
      ⟨h.fresh, h.trimmed⟩
    refine hhash.setRun (fun k hk ↦ ?_) fun f n fields' its heq ↦ ?_
    · show (s.runs r).Unqueued k
      rw [hrun]
      cases k with
      | none | some => exact hk
    · simp only [Run.trimming.injEq] at heq
      obtain ⟨-, rfl, rfl, -⟩ := heq
      exact fun y hy ↦ h.trimmed r _ _ _ _ hrun y (mem_cons_of_mem x hy)
  case h_2 => exact h

theorem coherent_deleteKey (h : s.Coherent) (r : ℕ) : (s.deleteKey r).Coherent := by
  unfold deleteKey
  split
  case h_1 fetchTime hrun =>
    have hlist : { s with
        projectList := if s.ListedUntil fetchTime then none else s.projectList }.Coherent :=
      ⟨h.fresh, h.trimmed⟩
    exact hlist.setRun (fun k hk ↦ hk.elim) fun f n fields items heq ↦ by simp at heq
  case h_2 => exact h

theorem coherent_fetch (h : s.Coherent) (key : TaskKey) : (s.fetch key).Coherent := by
  unfold fetch
  split
  case h_1 htask => exact h.setTask _ (h.not_unqueued (by simp [htask]))
  case h_2 => exact h

theorem coherent_count [DecidableEq Pair] (h : s.Coherent) (key : TaskKey) (x : Pair) :
    (s.count key x).Coherent := by
  unfold count
  split
  case h_1 htask =>
    split
    · have hcount : { s with unevaluated := s.unevaluated.filter (· ≠ x) }.Coherent :=
        ⟨h.fresh, h.trimmed⟩
      exact hcount.setTask _ (h.not_unqueued (by simp [htask]))
    · exact h
  case h_2 => exact h

theorem coherent_cleanup [DecidableEq Pair] (h : s.Coherent) (key : TaskKey) (x : Pair) :
    (s.cleanup key x).Coherent := by
  unfold cleanup
  split
  case h_1 htask =>
    have hkey : ¬ (s.runs key.1).Unqueued key.2 := h.not_unqueued (by simp [htask])
    split
    · rcases key with ⟨r, _ | number⟩
      · have hhash : { s with projectHash := delItem x s.projectHash }.Coherent :=
          ⟨h.fresh, h.trimmed⟩
        exact hhash.setTask _ hkey
      · exact (h.setBatch (fun hbatch ↦ hkey (unqueued_of_batch hbatch)) _).setTask _ hkey
    · exact h
  case h_2 => exact h

theorem coherent_step [DecidableEq Pair] (h : s.Coherent) (event : Event Pair Value) :
    (s.step batchSize event).Coherent := by
  cases event with
  | pushToSortedSet call pair value time =>
    show (s.pushToSortedSet call pair value time).Coherent
    unfold pushToSortedSet
    split
    · exact ⟨h.fresh, h.trimmed⟩
    · exact h
  | pushToHash call =>
    show (s.pushToHash call).Coherent
    unfold pushToHash
    split
    · exact h
    · exact ⟨h.fresh, h.trimmed⟩
  | getSortedSet r fetchTime => exact coherent_getSortedSet h r fetchTime
  | getHashLength r => exact coherent_getHashLength h r
  | delay r => exact coherent_delay h r
  | getHash r => exact coherent_getHash h r
  | pushToHashBulk r => exact coherent_pushToHashBulk h r
  | deleteHash r => exact coherent_deleteHash h r
  | deleteKey r => exact coherent_deleteKey h r
  | fetch key => exact coherent_fetch h key
  | count key pair => exact coherent_count h key pair
  | cleanup key pair => exact coherent_cleanup h key pair

/-! ### When a step loses nothing -/

/-- No step that loses a pair: a pair is pushed to the hash when this will be processed, or the pair
was taken since; the project is taken off the list when every pair that is still to be evaluated
will be read by a run or a queued task, or was taken; and a field of the project hash is cleaned up
when its pair was not pushed again since the counts, or was taken since. -/
def Keeps (batchSize : ℕ) (s : State Pair Value) : Event Pair Value → Prop
  | .pushToHash call => ∀ pair value, s.calls call = .pushed pair value →
      s.Attended batchSize ∨ s.Taken batchSize pair
  | .deleteKey r => ∀ fetchTime, s.runs r = .deleting fetchTime → s.ListedUntil fetchTime →
      ∀ pair ∈ s.unevaluated,
        (pair ∈ s.projectHash.map Prod.fst ∧ s.WillRead batchSize) ∨ s.Taken batchSize pair
  | .cleanup (r, none) pair => ∀ uncleaned, s.tasks (r, none) = .running [] uncleaned →
      pair ∈ uncleaned → pair ∈ s.unevaluated → s.Taken batchSize pair
  | _ => True

section

variable (h : s.NoneLost batchSize)

include h

theorem noneLost_getSortedSet (r : ℕ) (fetchTime : ℚ≥0) :
    (s.getSortedSet r fetchTime).NoneLost batchSize := by
  unfold getSortedSet
  split
  case h_1 hrun =>
    refine fun pair hpair ↦ (h pair hpair).setRun ?_ ?_ ?_
    · simp [hrun, Run.WillRead]
    · simp [hrun, Run.items]
    · simp [hrun, Run.batch]
  case h_2 => exact h

theorem noneLost_getHashLength (r : ℕ) : (s.getHashLength batchSize r).NoneLost batchSize := by
  unfold getHashLength
  split
  case h_1 hrun =>
    refine fun pair hpair ↦ (h pair hpair).setRun (fun _ _ _ ↦ Or.inl ?_) ?_ ?_
    · split <;> trivial
    · simp [hrun, Run.items]
    · simp [hrun, Run.batch]
  case h_2 => exact h

theorem noneLost_delay (hs : s.Coherent) (r : ℕ) : (s.delay r).NoneLost batchSize := by
  unfold delay
  split
  case h_1 fetchTime hrun =>
    have habsent : s.tasks (r, none) = .absent := hs.fresh r none (by rw [hrun]; trivial)
    have hqueued : (s.setTask (r, none) .queued).tasks (r, none) = .queued := by
      rw [tasks_setTask, if_pos rfl]
    intro pair hpair
    have htask : (s.setTask (r, none) .queued).Saved batchSize pair :=
      (h pair hpair).setTask (fun _ _ ↦ Or.inl rfl) (by simp [habsent, Task.uncounted])
    refine htask.setRun (fun _ _ _ ↦ Or.inr (Or.inl ⟨r, hqueued⟩)) ?_ ?_
    · simp [setTask, hrun, Run.items]
    · simp [setTask, hrun, Run.batch]
  case h_2 fetchTime number items hrun =>
    have habsent : s.tasks (r, some number) = .absent :=
      hs.fresh r (some number) (by rw [hrun]; exact Nat.le_refl number)
    intro pair hpair
    have htask : (s.setTask (r, some number) .queued).Saved batchSize pair :=
      (h pair hpair).setTask (fun _ _ ↦ Or.inl rfl) (by simp [habsent, Task.uncounted])
    refine htask.setRun ?_ ?_ ?_
    · simp [setTask, hrun, Run.WillRead]
    · intro _ hitems
      left
      simpa [setTask, hrun, Run.items] using hitems
    · intro n hn
      obtain rfl : number = n := by simpa [setTask, hrun, Run.batch] using hn
      right
      rw [tasks_setTask, if_pos rfl]
  case h_3 => exact h

theorem noneLost_getHash (r : ℕ) : (s.getHash r).NoneLost batchSize := by
  unfold getHash
  split
  case h_1 hrun =>
    refine fun pair hpair ↦ (h pair hpair).setRun (fun _ hmem _ ↦ Or.inr (Or.inr hmem)) ?_ ?_
    · simp [hrun, Run.items]
    · simp [hrun, Run.batch]
  case h_2 => exact h

theorem noneLost_pushToHashBulk (hs : s.Coherent) (r : ℕ) :
    (s.pushToHashBulk batchSize r).NoneLost batchSize := by
  unfold pushToHashBulk
  split
  case h_1 fetchTime number items hrun =>
    split
    case h_1 htake =>
      refine fun pair hpair ↦ (h pair hpair).setRun ?_ (fun hpos hmem ↦ ?_) ?_
      · simp [hrun, Run.WillRead]
      · rcases take_eq_nil_iff.mp htake with hzero | hnil
        · exact absurd hzero hpos.ne'
        · simp [hrun, Run.items, hnil] at hmem
      · simp [hrun, Run.batch]
    case h_2 =>
      have hnot : ¬ s.BatchWillBeRead r number := by
        rintro (hqueued | hbatch)
        · rw [hs.fresh r (some number) (by rw [hrun]; exact Nat.le_refl number)] at hqueued
          simp at hqueued
        · simp [hrun, Run.batch] at hbatch
      intro pair hpair
      have hsaved := (h pair hpair).setBatch hnot (items.take batchSize)
      refine hsaved.setRun ?_ (fun _ hmem ↦ ?_) ?_
      · simp [setBatch, hrun, Run.WillRead]
      · have hitems : pair ∈ (items.take batchSize ++ items.drop batchSize).map Prod.fst := by
          simpa [setBatch, hrun, Run.items] using hmem
        rw [map_append, mem_append] at hitems
        rcases hitems with htake | hdrop
        · right
          refine ⟨number, ?_, rfl⟩
          rwa [batchHash_setBatch, if_pos ⟨rfl, rfl⟩]
        · exact Or.inl hdrop
      · simp [setBatch, hrun, Run.batch]
  case h_2 => exact h

end

theorem noneLost_deleteHash [DecidableEq Pair] (h : s.NoneLost batchSize) (hs : s.Coherent)
    (r : ℕ) : (s.deleteHash r).NoneLost batchSize := by
  unfold deleteHash
  split
  case h_1 fetchTime number x fields items hrun =>
    intro pair hpair
    have hsaved : { s with projectHash := delItem x s.projectHash }.Saved batchSize pair := by
      refine (h pair hpair).deleteField fun heq ↦ ?_
      have hmem : x ∈ (s.batchHash r number).map Prod.fst :=
        hs.trimmed r _ _ _ _ hrun x mem_cons_self
      exact Or.inr (Or.inr ⟨r, number, heq ▸ hmem, Or.inr (by rw [hrun]; rfl)⟩)
    refine hsaved.setRun ?_ (fun _ hitems ↦ Or.inl ?_) fun n hn ↦ Or.inl ?_
    · simp [hrun, Run.WillRead]
    · simpa [hrun, Run.items] using hitems
    · simpa [hrun, Run.batch] using hn
  case h_2 => exact h

theorem noneLost_fetch (h : s.NoneLost batchSize) (key : TaskKey) :
    (s.fetch key).NoneLost batchSize := by
  unfold fetch
  split
  case h_1 htask =>
    refine fun pair hpair ↦ (h pair hpair).setTask (fun _ hmem ↦ Or.inr hmem) ?_
    simp [htask, Task.uncounted]
  case h_2 => exact h

theorem noneLost_count [DecidableEq Pair] (h : s.NoneLost batchSize) (key : TaskKey) (x : Pair) :
    (s.count key x).NoneLost batchSize := by
  unfold count
  split
  case h_1 uncounted uncleaned htask =>
    split
    · intro pair hpair
      obtain ⟨hmem, hne⟩ := mem_filter.mp hpair
      have hsaved : { s with unevaluated := s.unevaluated.filter (· ≠ x) }.Saved batchSize pair :=
        h pair hmem
      refine hsaved.setTask (by simp [htask]) fun hcount ↦ ?_
      have huncounted : pair ∈ uncounted := by simpa [htask, Task.uncounted] using hcount
      exact mem_filter.mpr ⟨huncounted, hne⟩
    · exact h
  case h_2 => exact h

/-! ### The steps that can lose a pair -/

theorem noneLost_pushToSortedSet (h : s.NoneLost batchSize) (call : ℕ) (pair : Pair) (value : Value)
    (time : ℚ≥0) : (s.pushToSortedSet call pair value time).NoneLost batchSize := by
  unfold pushToSortedSet
  split
  · refine fun p hp ↦ (h p hp).imp (fun hhash ↦ ⟨hhash.1, Or.inl ?_⟩) id
    simp
  · exact h

theorem noneLost_pushToHash_iff [DecidableEq Pair] (h : s.NoneLost batchSize) (call : ℕ) :
    (s.pushToHash call).NoneLost batchSize ↔ s.Keeps batchSize (.pushToHash call) := by
  unfold pushToHash
  split
  case h_1 hcall =>
    refine ⟨fun _ pair value heq ↦ ?_, fun _ ↦ h⟩
    simp [hcall] at heq
  case h_2 x value hcall =>
    constructor
    · intro hnext pair value' heq
      obtain ⟨rfl, rfl⟩ : x = pair ∧ value = value' := by simpa [hcall] using heq
      exact (hnext x mem_cons_self).imp And.right id
    · intro hkeeps pair hpair
      rcases mem_cons.mp hpair with rfl | hpair
      · exact (hkeeps pair value hcall).imp (fun hread ↦ ⟨mem_keys_setItem.mpr (Or.inl rfl), hread⟩)
          id
      · exact (h pair hpair).imp (fun hhash ↦ ⟨mem_keys_setItem.mpr (Or.inr hhash.1), hhash.2⟩) id

theorem saved_finished_iff {r : ℕ} {fetchTime : ℚ≥0} (hrun : s.runs r = .deleting fetchTime) :
    (s.setRun r .finished).Saved batchSize pair ↔ s.Saved batchSize pair := by
  constructor
  · intro hsaved
    have hback : ((s.setRun r .finished).setRun r (.deleting fetchTime)).Saved batchSize pair :=
      hsaved.setRun (by simp [runs_setRun, Run.WillRead]) (by simp [runs_setRun, Run.items])
        (by simp [runs_setRun, Run.batch])
    rwa [← hrun, setRun_setRun_self] at hback
  · intro hsaved
    exact hsaved.setRun (by simp [hrun, Run.WillRead]) (by simp [hrun, Run.items])
      (by simp [hrun, Run.batch])

theorem saved_cleaned_iff {uncleaned left : List Pair} (htask : s.tasks key = .running [] uncleaned)
    : (s.setTask key (.running [] left)).Saved batchSize pair ↔ s.Saved batchSize pair := by
  constructor
  · intro hsaved
    have hback :
        ((s.setTask key (.running [] left)).setTask key (.running [] uncleaned)).Saved batchSize
          pair :=
      hsaved.setTask (by simp [tasks_setTask]) (by simp [tasks_setTask, Task.uncounted])
    rwa [← htask, setTask_setTask_self] at hback
  · intro hsaved
    exact hsaved.setTask (by simp [htask]) (by simp [htask, Task.uncounted])

theorem noneLost_deleteKey_iff [DecidableEq Pair] (h : s.NoneLost batchSize) (r : ℕ) :
    (s.deleteKey r).NoneLost batchSize ↔ s.Keeps batchSize (.deleteKey r) := by
  unfold deleteKey
  split
  case h_1 fetchTime hrun =>
    constructor
    · intro hnext f hdeleting hlisted pair hpair
      obtain rfl : fetchTime = f := by simpa [hrun] using hdeleting
      have hsaved := (saved_finished_iff (by exact hrun)).mp (hnext pair hpair)
      rw [if_pos hlisted] at hsaved
      refine hsaved.imp (fun hhash ↦ ⟨hhash.1, ?_⟩) id
      exact hhash.2.resolve_left fun hlist ↦ hlist rfl
    · intro hkeeps pair hpair
      refine (saved_finished_iff (by exact hrun)).mpr ?_
      by_cases hlisted : s.ListedUntil fetchTime
      · rw [if_pos hlisted]
        exact (hkeeps fetchTime hrun hlisted pair hpair).imp
          (fun hhash ↦ ⟨hhash.1, Or.inr hhash.2⟩) id
      · rw [if_neg hlisted]
        exact h pair hpair
  case h_2 hrun =>
    exact ⟨fun _ f hdeleting ↦ absurd hdeleting (hrun f), fun _ ↦ h⟩

theorem noneLost_cleanup_iff [DecidableEq Pair] (h : s.NoneLost batchSize) (hs : s.Coherent)
    (key : TaskKey) (x : Pair) :
    (s.cleanup key x).NoneLost batchSize ↔ s.Keeps batchSize (.cleanup key x) := by
  unfold cleanup
  split
  case h_1 uncleaned htask =>
    by_cases hx : x ∈ uncleaned
    · rw [if_pos hx]
      rcases key with ⟨r, _ | number⟩
      · constructor
        · intro hnext left hleft hmem hunevaluated
          have hsaved := (saved_cleaned_iff (by exact htask)).mp (hnext x hunevaluated)
          exact hsaved.resolve_left fun hhash ↦ (mem_keys_delItem.mp hhash.1).2 rfl
        · intro hkeeps pair hpair
          have hsaved : (s.deleteField (r, none) x).Saved batchSize pair :=
            (h pair hpair).deleteField fun heq ↦ by
              subst heq
              exact hkeeps uncleaned htask hx hpair
          exact (saved_cleaned_iff (by exact htask)).mpr hsaved
      · refine ⟨fun _ ↦ trivial, fun _ pair hpair ↦ ?_⟩
        have hnot : ¬ s.BatchWillBeRead r number := by
          rintro (hqueued | hbatch)
          · simp [htask] at hqueued
          · have habsent := hs.fresh r (some number) (unqueued_of_batch hbatch)
            simp [htask] at habsent
        exact (saved_cleaned_iff (by exact htask)).mpr ((h pair hpair).setBatch hnot _)
    · rw [if_neg hx]
      refine ⟨fun _ ↦ ?_, fun _ ↦ h⟩
      rcases key with ⟨r, _ | number⟩
      · intro left hleft hmem
        obtain rfl : uncleaned = left := by simpa [htask] using hleft
        exact absurd hmem hx
      · trivial
  case h_2 hrun =>
    refine ⟨fun _ ↦ ?_, fun _ ↦ h⟩
    rcases key with ⟨r, _ | number⟩
    · exact fun left hleft ↦ absurd hleft (hrun left)
    · trivial

theorem noneLost_step_iff [DecidableEq Pair] (h : s.NoneLost batchSize) (hs : s.Coherent)
    (event : Event Pair Value) :
    (s.step batchSize event).NoneLost batchSize ↔ s.Keeps batchSize event := by
  cases event with
  | pushToSortedSet call pair value time =>
    exact iff_of_true (noneLost_pushToSortedSet h call pair value time) trivial
  | pushToHash call => exact noneLost_pushToHash_iff h call
  | getSortedSet r fetchTime => exact iff_of_true (noneLost_getSortedSet h r fetchTime) trivial
  | getHashLength r => exact iff_of_true (noneLost_getHashLength h r) trivial
  | delay r => exact iff_of_true (noneLost_delay h hs r) trivial
  | getHash r => exact iff_of_true (noneLost_getHash h r) trivial
  | pushToHashBulk r => exact iff_of_true (noneLost_pushToHashBulk h hs r) trivial
  | deleteHash r => exact iff_of_true (noneLost_deleteHash h hs r) trivial
  | deleteKey r => exact noneLost_deleteKey_iff h r
  | fetch key => exact iff_of_true (noneLost_fetch h key) trivial
  | count key pair => exact iff_of_true (noneLost_count h key pair) trivial
  | cleanup key pair => exact noneLost_cleanup_iff h hs key pair

end State

/-! ### Whole runs -/

variable [DecidableEq Pair]

theorem coherent_init (batchSize : ℕ) : (delayedBuffer Pair Value batchSize).init.Coherent where
  fresh _ _ _ := rfl
  trimmed _ _ _ _ _ h := by simp [delayedBuffer] at h

/-- Throughout a run no evaluation is lost if and only if every step of it meets the condition. -/
theorem noneLost_iff_everyStep (batchSize : ℕ) (events : List (Event Pair Value)) :
    (∀ first, first <+: events →
        ((delayedBuffer Pair Value batchSize).run first).NoneLost batchSize) ↔
      (delayedBuffer Pair Value batchSize).EveryStep (State.Keeps batchSize)
        (delayedBuffer Pair Value batchSize).init events := by
  refine (delayedBuffer Pair Value batchSize).forall_prefix_property_iff_everyStep
    (I := fun s : State Pair Value ↦ s.Coherent ∧ s.NoneLost batchSize) (fun s h ↦ h.2)
    (fun s event h hkeeps ↦ ?_) (fun s event h hnext ↦ ?_) ?_ events
  · exact ⟨coherent_step h.1 event, (noneLost_step_iff h.2 h.1 event).mpr hkeeps⟩
  · exact (noneLost_step_iff h.2 h.1 event).mp hnext
  · exact ⟨coherent_init batchSize, by simp [State.NoneLost, delayedBuffer]⟩

/-- A call pushes the project; a run reads the list, has the project hash, empty so far, processed
by a task, and takes the project off the list; then the call pushes its pair. -/
def pushedTooLate : List (Event ℕ ℕ) :=
  [.pushToSortedSet 0 7 1 1, .getSortedSet 0 2, .getHashLength 0, .delay 0, .fetch (0, none),
    .deleteKey 0, .pushToHash 0]

theorem run_pushedTooLate : (delayedBuffer ℕ ℕ 10000).run pushedTooLate =
    { projectList := none
      projectHash := [(7, 1)]
      batchHash := fun _ _ ↦ []
      calls := fun _ ↦ .idle
      runs := Function.update (fun _ ↦ .idle) 0 .finished
      tasks := Function.update (fun _ ↦ .absent) (0, none) (.running [] [])
      unevaluated := [7] } := by
  have hlisted : ∀ s : State ℕ ℕ, s.projectList = some 1 → s.ListedUntil 2 :=
    fun s hs ↦ ⟨1, hs, by decide⟩
  simp [delayedBuffer, Machine.run, Machine.runFrom, pushedTooLate, step,
    pushToSortedSet, getSortedSet, getHashLength, delay, fetch,
    deleteKey, pushToHash, setRun, setTask, hashOf, hlisted, setItem]

/-- The pair stays in the project hash, and nothing will have it processed. -/
theorem not_noneLost :
    ¬ ∀ (batchSize : ℕ) (events : List (Event ℕ ℕ)),
      ((delayedBuffer ℕ ℕ batchSize).run events).NoneLost batchSize := by
  intro h
  have hlost := h 10000 pushedTooLate
  rw [run_pushedTooLate] at hlost
  rcases hlost 7 (by simp) with ⟨-, hlist | ⟨-, r, hr⟩ | ⟨r, hr⟩⟩ | ⟨key, hkey⟩ | ⟨-, r, hr⟩ |
    ⟨r, number, hmem, -⟩
  · exact hlist rfl
  · by_cases h0 : r = 0
    · simp [h0, Run.WillRead] at hr
    · simp [h0, Run.WillRead] at hr
  · by_cases h0 : r = 0
    · simp [h0] at hr
    · simp [h0] at hr
  · by_cases h0 : key = (0, none)
    · simp [h0, Task.uncounted] at hkey
    · simp [h0, Task.uncounted] at hkey
  · by_cases h0 : r = 0
    · simp [h0, Run.items] at hr
    · simp [h0, Run.items] at hr
  · simp at hmem

end Sentry.Rules.Delayed
