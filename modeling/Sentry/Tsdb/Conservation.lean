import Sentry.Tsdb.Redis

/-!
# Conservation of the counters by a merge

The balance of some fields: what they hold, what the calls will still add to them, and what the
merge owes them. Every command keeps it, for fields that hold the destination whenever they hold a
source, but for an HINCRBY between the HGET and the HDEL of a field (`balance_step`). So a run loses
exactly these (`balance_run`).
-/

namespace Sentry.Tsdb.RedisTSDB

open Library

variable (tsdb : RedisTSDB) (merge : Merge) (cells : Finset Cell)

def owedBy (data : Data) : ℤ :=
  amountOn (fun slot ↦ tsdb.destinationCell merge slot ∈ cells)
    (data.map fun item ↦ (item.1, total item.2))

def owed (s : State) : ℤ :=
  match s.merge with
  | .reading _ data => tsdb.owedBy merge cells data
  | .deleting cell _ data =>
    tsdb.owedBy merge cells data - if cell ∈ cells then count s.redis cell else 0
  | .adding todo => amountOn (· ∈ cells) todo

def remaining (calls : List (List (Cell × ℤ))) : ℤ :=
  (calls.map fun commands ↦ amountOn (· ∈ cells) commands).sum

def balance (s : State) : ℤ :=
  ∑ cell ∈ cells, count s.redis cell + tsdb.owed merge cells s + remaining cells s.calls

def lossOf (s : State) : Event → ℤ
  | .merge => 0
  | .call i =>
    match s.merge, s.nextCommand i with
    | .deleting cell _ _, some (other, amount) => if other = cell ∧ cell ∈ cells then amount else 0
    | _, _ => 0

def lost (s : State) : List Event → ℤ
  | [] => 0
  | event :: rest => lossOf cells s event + lost (tsdb.step merge s event) rest

def MergeState.todo : MergeState → List (Slot × Cell)
  | .reading todo _ => todo
  | .deleting _ todo _ => todo
  | .adding _ => []

def Closed (sources : List (Slot × Cell)) : Prop :=
  ∀ source ∈ sources, source.2 ∈ cells ↔ tsdb.destinationCell merge source.1 ∈ cells

theorem total_concat (promises : List (Option ℤ)) (promise : Option ℤ) :
    total (promises ++ [promise]) = total promises + promise.getD 0 := by
  rw [total, total, List.map_append, List.sum_append, List.map_singleton, List.sum_singleton]

theorem owedBy_setItem (data : Data) (slot : Slot) (promise : Option ℤ) :
    tsdb.owedBy merge cells (setItem slot ((getItem data slot).getD [] ++ [promise]) data) =
      tsdb.owedBy merge cells data +
        if tsdb.destinationCell merge slot ∈ cells then promise.getD 0 else 0 := by
  unfold owedBy
  induction data with
  | nil => simp [setItem, total]
  | cons item rest ih =>
    obtain ⟨slot', promises⟩ := item
    rw [getItem_cons]
    by_cases hslot : slot' = slot
    · rw [if_pos hslot, setItem, if_pos hslot, List.map_cons, List.map_cons, amountOn_cons,
        amountOn_cons, Option.getD_some, total_concat, hslot]
      split_ifs <;> omega
    · rw [if_neg hslot, setItem, if_neg hslot, List.map_cons, List.map_cons, amountOn_cons,
        amountOn_cons, ih, add_assoc]

theorem amountOn_totals (data : Data) :
    amountOn (· ∈ cells) (tsdb.totals merge data) = tsdb.owedBy merge cells data := by
  unfold totals owedBy
  induction data with
  | nil => rfl
  | cons item rest ih =>
    rw [List.map_cons, amountOn_cons, ← ih]
    by_cases hzero : total item.2 = 0
    · rw [List.filter_cons_of_neg (by simpa using hzero), hzero, ite_self, zero_add]
    · rw [List.filter_cons_of_pos (by simpa using hzero), List.map_cons, amountOn_cons]

theorem owed_nextSource (redis : Cell → Option ℤ) (calls : List (List (Cell × ℤ)))
    (todo : List (Slot × Cell)) (data : Data) :
    tsdb.owed merge cells ⟨redis, calls, tsdb.nextSource merge todo data⟩ =
      tsdb.owedBy merge cells data := by
  unfold nextSource
  by_cases htodo : todo = []
  · rw [if_pos htodo]
    exact tsdb.amountOn_totals merge cells data
  · rw [if_neg htodo]
    rfl

theorem sum_hincrby (redis : Cell → Option ℤ) (cell : Cell) (amount : ℤ) :
    ∑ x ∈ cells, count (hincrby redis cell amount) x =
      ∑ x ∈ cells, count redis x + if cell ∈ cells then amount else 0 := by
  rw [hincrby, sum_count_update]
  refine congrArg _ ?_
  split_ifs
  · rw [Option.getD_some]
    omega
  · rfl

theorem sum_hdel (redis : Cell → Option ℤ) (cell : Cell) :
    ∑ x ∈ cells, count (hdel redis cell) x =
      ∑ x ∈ cells, count redis x - if cell ∈ cells then count redis cell else 0 := by
  rw [hdel, sum_count_update]
  split_ifs
  · rw [Option.getD_none]
    omega
  · omega

theorem count_hincrby (redis : Cell → Option ℤ) (cell other : Cell) (amount : ℤ) :
    count (hincrby redis cell amount) other =
      count redis other + if cell = other then amount else 0 := by
  rw [hincrby, count]
  by_cases h : cell = other
  · rw [if_pos h, ← h, Function.update_self, Option.getD_some]
  · rw [if_neg h, Function.update_of_ne (Ne.symm h), ← count, add_zero]

theorem remaining_modify {calls : List (List (Cell × ℤ))} {i : ℕ} {cell : Cell} {amount : ℤ}
    (h : (calls.getD i []).head? = some (cell, amount)) :
    remaining cells (calls.modify i List.tail) =
      remaining cells calls - if cell ∈ cells then amount else 0 := by
  unfold remaining
  induction calls generalizing i with
  | nil => simp at h
  | cons commands calls ih =>
    cases i with
    | zero =>
      obtain ⟨rest, rfl⟩ : ∃ rest, commands = (cell, amount) :: rest := by
        refine ⟨commands.tail, ?_⟩
        exact List.eq_cons_of_mem_head? (by simpa using h)
      rw [List.modify_zero_cons, List.map_cons, List.map_cons, List.sum_cons, List.sum_cons,
        List.tail_cons, amountOn_cons]
      dsimp only
      omega
    | succ i =>
      rw [List.modify_succ_cons, List.map_cons, List.map_cons, List.sum_cons, List.sum_cons,
        ih (by simpa using h)]
      omega

theorem owed_hincrby (s : State) {i : ℕ} {cell : Cell} {amount : ℤ}
    (h : s.nextCommand i = some (cell, amount)) (calls : List (List (Cell × ℤ))) :
    tsdb.owed merge cells ⟨hincrby s.redis cell amount, calls, s.merge⟩ =
      tsdb.owed merge cells s - lossOf cells s (.call i) := by
  unfold owed lossOf
  dsimp only
  rw [h]
  cases s.merge with
  | reading | adding => exact (sub_zero _).symm
  | deleting other todo data =>
    dsimp only
    rw [count_hincrby]
    by_cases hother : other ∈ cells
    · simp only [hother, if_true, and_true]
      omega
    · simp only [hother, if_false, and_false, sub_zero]

theorem balance_step {s : State} (hclosed : tsdb.Closed merge cells s.merge.todo) (event : Event) :
    tsdb.balance merge cells (tsdb.step merge s event) =
      tsdb.balance merge cells s - lossOf cells s event := by
  cases event with
  | call i =>
    cases h : s.nextCommand i with
    | none =>
      have hloss : lossOf cells s (.call i) = 0 := by
        unfold lossOf
        dsimp only
        rw [h]
        cases s.merge <;> rfl
      rw [step, h, hloss, sub_zero]
    | some command =>
      obtain ⟨cell, amount⟩ := command
      rw [step, h]
      unfold balance
      rw [sum_hincrby, tsdb.owed_hincrby merge cells s h, remaining_modify cells h]
      omega
  | merge =>
    obtain ⟨redis, calls, state⟩ := s
    rw [lossOf, sub_zero, step, mergeStep]
    cases state with
    | reading todo data =>
      cases todo with
      | nil => rfl
      | cons source todo =>
        obtain ⟨slot, cell⟩ := source
        have hsource : cell ∈ cells ↔ tsdb.destinationCell merge slot ∈ cells :=
          hclosed (slot, cell) List.mem_cons_self
        show ∑ x ∈ cells, count redis x +
            (tsdb.owedBy merge cells _ - if cell ∈ cells then count redis cell else 0) +
            remaining cells calls =
          ∑ x ∈ cells, count redis x + tsdb.owedBy merge cells data + remaining cells calls
        rw [owedBy_setItem]
        simp only [hsource, count]
        omega
    | deleting cell todo data =>
      show ∑ x ∈ cells, count (hdel redis cell) x +
          tsdb.owed merge cells ⟨_, calls, tsdb.nextSource merge todo data⟩ +
          remaining cells calls =
        ∑ x ∈ cells, count redis x +
          (tsdb.owedBy merge cells data - if cell ∈ cells then count redis cell else 0) +
          remaining cells calls
      rw [sum_hdel, owed_nextSource]
      omega
    | adding todo =>
      cases todo with
      | nil => rfl
      | cons command todo =>
        obtain ⟨cell, amount⟩ := command
        show ∑ x ∈ cells, count (hincrby redis cell amount) x + amountOn (· ∈ cells) todo +
            remaining cells calls =
          ∑ x ∈ cells, count redis x + amountOn (· ∈ cells) ((cell, amount) :: todo) +
            remaining cells calls
        rw [sum_hincrby, amountOn_cons]
        dsimp only
        omega

theorem todo_nextSource_subset (todo : List (Slot × Cell)) (data : Data) :
    (tsdb.nextSource merge todo data).todo ⊆ todo := by
  unfold nextSource
  split_ifs
  · exact List.nil_subset _
  · exact List.Subset.refl _

theorem todo_step_subset (s : State) (event : Event) :
    (tsdb.step merge s event).merge.todo ⊆ s.merge.todo := by
  cases event with
  | call i =>
    rw [step]
    cases s.nextCommand i <;> exact List.Subset.refl _
  | merge =>
    obtain ⟨redis, calls, state⟩ := s
    cases state with
    | reading todo data =>
      cases todo with
      | nil => exact List.Subset.refl _
      | cons source todo => exact List.subset_cons_self source todo
    | deleting cell todo data => exact tsdb.todo_nextSource_subset merge todo data
    | adding todo => cases todo <;> exact List.Subset.refl _

theorem balance_run {s : State} (hclosed : tsdb.Closed merge cells s.merge.todo)
    (events : List Event) :
    tsdb.balance merge cells (tsdb.run merge s events) =
      tsdb.balance merge cells s - tsdb.lost merge cells s events := by
  induction events generalizing s with
  | nil => exact (sub_zero _).symm
  | cons event events ih =>
    have hrest : tsdb.Closed merge cells (tsdb.step merge s event).merge.todo :=
      fun source hsource ↦ hclosed source (tsdb.todo_step_subset merge s event hsource)
    refine (ih hrest).trans ?_
    rw [balance_step tsdb merge cells hclosed, lost]
    omega

theorem balance_start (calls : List IncrMulti) (redis : Cell → Option ℤ) :
    tsdb.balance merge cells (tsdb.start merge calls redis) =
      ∑ cell ∈ cells, count redis cell + remaining cells (calls.map tsdb.incrMulti) := by
  unfold balance start
  rw [owed_nextSource, owedBy, List.map_nil, amountOn_nil, add_zero]

theorem balance_finished {s : State} (hfinished : s.Finished) :
    tsdb.balance merge cells s = ∑ cell ∈ cells, count s.redis cell := by
  obtain ⟨hcalls, hmerge⟩ := hfinished
  have hremaining : remaining cells s.calls = 0 := by
    refine List.sum_eq_zero fun amount hamount ↦ ?_
    obtain ⟨commands, hcommands, rfl⟩ := List.mem_map.mp hamount
    rw [hcalls commands hcommands, amountOn_nil]
  rw [balance, hremaining, owed, hmerge]
  dsimp only
  rw [amountOn_nil, add_zero, add_zero]

end Sentry.Tsdb.RedisTSDB
