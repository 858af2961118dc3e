import Mathlib.Algebra.Order.BigOperators.Group.List
import Mathlib.Algebra.Order.Group.Nat

/-!
# Paging through rows

Rows are read in pages by limit and offset. A pager (`Pager.next`) asks for one row more than a page
and hands out one by one what it loads from the pages of the rows (`drain_next_eq`). Loading may
collect the runs of rows with the same key (`runs`). Over sorted rows the runs have the keys once
(`pairwise_runs`, `eq_of_mem_runs`); the runs of the pages are the runs of the rows when no page
ends within a run, and otherwise they have a key twice (`flatMap_runs_pages`,
`nodup_flatMap_runs_pages`).
-/

namespace Sentry.Library

open List

variable {α γ σ ε : Type*}

def pages (size : ℕ) (rows : List α) : List (List α) :=
  if rows = [] ∨ size = 0 then [] else rows.take size :: pages size (rows.drop size)
termination_by rows.length
decreasing_by
  rename_i h
  have hrows : 0 < rows.length := length_pos_of_ne_nil fun hnil ↦ h (Or.inl hnil)
  have hsize : 0 < size := Nat.pos_of_ne_zero fun hzero ↦ h (Or.inr hzero)
  rw [length_drop]
  exact Nat.sub_lt hrows hsize

@[simp] theorem pages_nil (size : ℕ) : pages size ([] : List α) = [] := by
  rw [pages]
  exact if_pos (Or.inl rfl)

theorem pages_of_ne_nil {size : ℕ} (hsize : 0 < size) {rows : List α} (hrows : rows ≠ []) :
    pages size rows = rows.take size :: pages size (rows.drop size) := by
  rw [pages]
  exact if_neg (not_or.mpr ⟨hrows, hsize.ne'⟩)

theorem flatten_pages {size : ℕ} (hsize : 0 < size) (rows : List α) :
    (pages size rows).flatten = rows := by
  induction hn : rows.length using Nat.strong_induction_on generalizing rows with
  | _ n ih =>
    by_cases hrows : rows = []
    · rw [hrows, pages_nil, flatten_nil]
    · have hpos : 0 < rows.length := length_pos_of_ne_nil hrows
      rw [pages_of_ne_nil hsize hrows, flatten_cons,
        ih (rows.drop size).length (by rw [length_drop]; omega) _ rfl, take_append_drop]

theorem pages_map {size : ℕ} (hsize : 0 < size) (f : α → γ) (rows : List α) :
    pages size (rows.map f) = (pages size rows).map (List.map f) := by
  induction hn : rows.length using Nat.strong_induction_on generalizing rows with
  | _ n ih =>
    by_cases hrows : rows = []
    · rw [hrows, map_nil, pages_nil, pages_nil, map_nil]
    · have hpos : 0 < rows.length := length_pos_of_ne_nil hrows
      have hmap : rows.map f ≠ [] := fun hnil ↦ hrows (map_eq_nil_iff.mp hnil)
      rw [pages_of_ne_nil hsize hrows, pages_of_ne_nil hsize hmap, map_cons, ← map_take,
        ← map_drop, ih (rows.drop size).length (by rw [length_drop]; omega) _ rfl]

/-- The list of what an iterator hands out until it stops, or an error when that is not within a
number of steps. -/
def drain (next : σ → Option γ × σ) (outOfFuel : ε) : ℕ → σ → Except ε (List γ)
  | 0, _ => .error outOfFuel
  | fuel + 1, s =>
    match next s with
    | (none, _) => .ok []
    | (some item, t) => (drain next outOfFuel fuel t).map (item :: ·)

/-- The state of a pager. -/
structure Pager (γ : Type*) where
  offset : ℕ := 0
  hasMoreResults : Bool := true
  cache : List γ := []

def Pager.getFromCache (s : Pager γ) : Option γ × Pager γ :=
  match s.cache with
  | [] => (none, s)
  | item :: cache => (some item, { s with cache := cache })

def Pager.fetch (size : ℕ) (rows : List α) (load : List α → List γ) (s : Pager γ) : Pager γ :=
  let data := (rows.drop s.offset).take (size + 1)
  let hasMoreResults := decide (size < data.length)
  { offset := s.offset + size
    hasMoreResults := hasMoreResults
    cache := s.cache ++ load (if hasMoreResults then data.dropLast else data) }

def Pager.next (size : ℕ) (rows : List α) (load : List α → List γ) (s : Pager γ) :
    Option γ × Pager γ :=
  if s.cache = [] ∧ s.hasMoreResults then (s.fetch size rows load).getFromCache
  else s.getFromCache

section Pager

variable (size : ℕ) (rows : List α) (load : List α → List γ)

def Pager.pending (s : Pager γ) : List γ :=
  s.cache ++ if s.hasMoreResults then (pages size (rows.drop s.offset)).flatMap load else []

variable {size rows load}

theorem fetch_eq (s : Pager γ) :
    s.fetch size rows load =
      ⟨s.offset + size, decide (size < (rows.drop s.offset).length),
        s.cache ++ load ((rows.drop s.offset).take size)⟩ := by
  rw [Pager.fetch]
  by_cases hmore : size < (rows.drop s.offset).length
  · have hread : size < ((rows.drop s.offset).take (size + 1)).length := by
      rw [length_take]
      omega
    simp only [hread, hmore, decide_true, if_true]
    have hread' : ((rows.drop s.offset).take (size + 1)).length = size + 1 := by
      rw [length_take]
      omega
    rw [dropLast_eq_take, hread', Nat.add_sub_cancel, take_take, min_eq_left (Nat.le_succ size)]
  · have hread : ¬size < ((rows.drop s.offset).take (size + 1)).length := by
      rw [length_take]
      omega
    simp only [hread, hmore, decide_false]
    rw [if_neg Bool.false_ne_true, take_of_length_le (by omega), take_of_length_le (by omega)]

variable {s : Pager γ}

theorem pending_fetch (hsize : 0 < size) (hnil : load [] = []) (hmore : s.hasMoreResults = true) :
    (s.fetch size rows load).pending size rows load = s.pending size rows load := by
  rw [fetch_eq, Pager.pending, Pager.pending, if_pos hmore, append_assoc, ← drop_drop]
  by_cases hrows : rows.drop s.offset = []
  · simp [hrows, hnil]
  · rw [pages_of_ne_nil hsize hrows, flatMap_cons]
    by_cases hsome : size < (rows.drop s.offset).length
    · rw [if_pos (decide_eq_true hsome)]
    · rw [if_neg (by simpa using hsome), drop_eq_nil_of_le (not_lt.mp hsome), pages_nil,
        flatMap_nil]

theorem getFromCache_cons {item : γ} {cache : List γ} (hcache : s.cache = item :: cache) :
    s.getFromCache = (some item, { s with cache := cache }) := by
  rw [Pager.getFromCache, hcache]

theorem getFromCache_nil (hcache : s.cache = []) : s.getFromCache = (none, s) := by
  rw [Pager.getFromCache, hcache]

/-- Assumes: something is loaded from every page that has rows. A pager hands out the first pending
item, or stops. -/
theorem next_eq (hsize : 0 < size) (hnil : load [] = [])
    (hload : ∀ page, page ≠ [] → load page ≠ []) (s : Pager γ) :
    (s.pending size rows load = [] ∧ (s.next size rows load).1 = none) ∨
      ∃ item t, s.next size rows load = (some item, t) ∧
        s.pending size rows load = item :: t.pending size rows load := by
  have hcached {s : Pager γ} {item : γ} {cache : List γ} (hcache : s.cache = item :: cache) :
      s.pending size rows load = item :: { s with cache := cache }.pending size rows load := by
    rw [Pager.pending, hcache, cons_append, Pager.pending]
  by_cases hread : s.cache = [] ∧ s.hasMoreResults = true
  · rw [Pager.next, if_pos hread, ← pending_fetch hsize hnil hread.2]
    cases hcache : (s.fetch size rows load).cache with
    | nil =>
      left
      rw [getFromCache_nil hcache]
      refine ⟨?_, rfl⟩
      rw [fetch_eq, hread.1, nil_append] at hcache
      have hrows : rows.drop s.offset = [] := by
        by_contra hrows
        refine hload _ ?_ hcache
        rw [Ne, take_eq_nil_iff, not_or]
        exact ⟨hsize.ne', hrows⟩
      rw [Pager.pending, fetch_eq, hread.1, hrows]
      simp [hnil]
    | cons item cache =>
      right
      exact ⟨item, _, getFromCache_cons hcache, hcached hcache⟩
  · rw [Pager.next, if_neg hread]
    cases hcache : s.cache with
    | nil =>
      left
      rw [getFromCache_nil hcache]
      refine ⟨?_, rfl⟩
      rw [Pager.pending, hcache, if_neg fun hmore ↦ hread ⟨hcache, hmore⟩, nil_append]
    | cons item cache =>
      right
      exact ⟨item, _, getFromCache_cons hcache, hcached hcache⟩

theorem drain_next_eq (hsize : 0 < size) (hnil : load [] = [])
    (hload : ∀ page, page ≠ [] → load page ≠ []) (outOfFuel : ε) {fuel : ℕ}
    (hfuel : (s.pending size rows load).length < fuel) :
    drain (Pager.next size rows load) outOfFuel fuel s = .ok (s.pending size rows load) := by
  induction fuel generalizing s with
  | zero => exact absurd hfuel (Nat.not_lt_zero _)
  | succ fuel ih =>
    rcases next_eq hsize hnil hload s with ⟨hpending, hstop⟩ | ⟨item, t, hitem, hpending⟩
    · have hnext : s.next size rows load = (none, (s.next size rows load).2) :=
        Prod.ext hstop rfl
      rw [drain, hnext, hpending]
    · rw [hpending, length_cons] at hfuel
      rw [drain, hitem, hpending]
      dsimp only
      rw [ih (Nat.succ_lt_succ_iff.mp hfuel)]
      rfl

end Pager

section Runs

variable {κ β : Type*}

def consRun [DecidableEq κ] (row : κ × β) : List (κ × List β) → List (κ × List β)
  | [] => [(row.1, [row.2])]
  | run :: rest =>
    if run.1 = row.1 then (run.1, row.2 :: run.2) :: rest else (row.1, [row.2]) :: run :: rest

def runs [DecidableEq κ] (rows : List (κ × β)) : List (κ × List β) := rows.foldr consRun []

section DecidableEq

variable [DecidableEq κ]

@[simp] theorem runs_nil : runs ([] : List (κ × β)) = [] := rfl

theorem runs_cons (row : κ × β) (rows : List (κ × β)) :
    runs (row :: rows) = consRun row (runs rows) := rfl

theorem exists_runs_cons (row : κ × β) (rows : List (κ × β)) :
    ∃ values rest, runs (row :: rows) = (row.1, row.2 :: values) :: rest := by
  rw [runs_cons]
  cases hruns : runs rows with
  | nil => exact ⟨[], [], rfl⟩
  | cons run rest =>
    rw [consRun]
    split_ifs with hsame
    · exact ⟨run.2, rest, by rw [hsame]⟩
    · exact ⟨[], run :: rest, rfl⟩

theorem runs_ne_nil {rows : List (κ × β)} (hrows : rows ≠ []) : runs rows ≠ [] := by
  obtain ⟨row, rows, rfl⟩ := exists_cons_of_ne_nil hrows
  obtain ⟨values, rest, hruns⟩ := exists_runs_cons row rows
  rw [hruns]
  exact cons_ne_nil _ _

theorem mem_keys_runs {rows : List (κ × β)} {key : κ} :
    key ∈ (runs rows).map Prod.fst ↔ key ∈ rows.map Prod.fst := by
  induction rows with
  | nil => rfl
  | cons row rows ih =>
    rw [map_cons, mem_cons, ← ih, runs_cons]
    cases runs rows with
    | nil => simp [consRun]
    | cons run rest =>
      rw [consRun]
      split_ifs with hsame
      · simp [hsame]
      · simp

theorem length_runs_le (rows : List (κ × β)) : (runs rows).length ≤ rows.length := by
  induction rows with
  | nil => exact le_rfl
  | cons row rows ih =>
    rw [runs_cons, length_cons]
    cases hruns : runs rows with
    | nil => simp [consRun]
    | cons run rest =>
      rw [hruns, length_cons] at ih
      rw [consRun]
      split_ifs
      · rw [length_cons]
        omega
      · rw [length_cons, length_cons]
        omega

theorem runs_map_key (key : κ) {values : List β} (hvalues : values ≠ []) :
    runs (values.map fun value ↦ (key, value)) = [(key, values)] := by
  induction values with
  | nil => exact absurd rfl hvalues
  | cons value values ih =>
    rw [map_cons, runs_cons]
    cases values with
    | nil => rfl
    | cons next values =>
      rw [ih (cons_ne_nil next values), consRun, if_pos rfl]

theorem runs_append {rows others : List (κ × β)}
    (h : ∀ last ∈ rows.getLast?, ∀ first ∈ others.head?, last.1 ≠ first.1) :
    runs (rows ++ others) = runs rows ++ runs others := by
  induction rows with
  | nil => rfl
  | cons row rows ih =>
    rw [cons_append, runs_cons, runs_cons]
    cases rows with
    | nil =>
      cases others with
      | nil => rfl
      | cons first others =>
        obtain ⟨values, rest, hruns⟩ := exists_runs_cons first others
        have hne : first.1 ≠ row.1 := (h row rfl first rfl).symm
        rw [nil_append, hruns, consRun, if_neg hne]
        rfl
    | cons next rows =>
      rw [ih (by simpa using h)]
      obtain ⟨values, rest, hruns⟩ := exists_runs_cons next rows
      rw [hruns, cons_append, consRun, consRun]
      split_ifs <;> rfl

end DecidableEq

section LinearOrder

variable [LinearOrder κ] {rows : List (κ × β)}

theorem le_of_mem_runs {row : κ × β} (hrow : ∀ other ∈ rows, row.1 ≤ other.1) {run : κ × List β}
    (hrun : run ∈ runs rows) : row.1 ≤ run.1 := by
  obtain ⟨other, hother, hkey⟩ := mem_map.mp (mem_keys_runs.mp (mem_map_of_mem hrun))
  exact hkey ▸ hrow other hother

theorem pairwise_runs (hsorted : rows.Pairwise fun row other ↦ row.1 ≤ other.1) :
    (runs rows).Pairwise fun run other ↦ run.1 < other.1 := by
  induction rows with
  | nil => exact List.Pairwise.nil
  | cons row rows ih =>
    obtain ⟨hrow, hrows⟩ := pairwise_cons.mp hsorted
    have hruns := ih hrows
    have hle : ∀ run ∈ runs rows, row.1 ≤ run.1 := fun run hrun ↦ le_of_mem_runs hrow hrun
    rw [runs_cons]
    cases hcases : runs rows with
    | nil => exact pairwise_singleton _ _
    | cons run rest =>
      rw [hcases] at hruns hle
      obtain ⟨hrun, hrest⟩ := pairwise_cons.mp hruns
      rw [consRun]
      split_ifs with hsame
      · exact pairwise_cons.mpr ⟨hrun, hrest⟩
      · have hlt : row.1 < run.1 := lt_of_le_of_ne (hle run mem_cons_self) (Ne.symm hsame)
        refine pairwise_cons.mpr ⟨?_, hruns⟩
        intro other hother
        rcases mem_cons.mp hother with rfl | hother
        · exact hlt
        · exact hlt.trans (hrun other hother)

theorem eq_of_mem_runs (hsorted : rows.Pairwise fun row other ↦ row.1 ≤ other.1) {run : κ × List β}
    (hrun : run ∈ runs rows) :
    run.2 = (rows.filter fun row ↦ row.1 = run.1).map Prod.snd := by
  induction rows generalizing run with
  | nil => cases hrun
  | cons row rows ih =>
    obtain ⟨hrow, hrows⟩ := pairwise_cons.mp hsorted
    have hstrict := pairwise_runs hrows
    rw [runs_cons] at hrun
    cases hcases : runs rows with
    | nil =>
      have hnil : rows = [] := by
        by_contra hrows
        exact runs_ne_nil hrows hcases
      rw [hcases, consRun, mem_singleton] at hrun
      rw [hrun, hnil]
      simp
    | cons first rest =>
      rw [hcases] at hrun hstrict
      obtain ⟨hfirst, -⟩ := pairwise_cons.mp hstrict
      have hkeep {other : κ × List β} (hother : other ∈ runs rows) (hne : row.1 ≠ other.1) :
          other.2 = ((row :: rows).filter fun row ↦ row.1 = other.1).map Prod.snd := by
        rw [filter_cons_of_neg (by simpa using hne)]
        exact ih hrows hother
      rw [consRun] at hrun
      split_ifs at hrun with hsame
      · rcases mem_cons.mp hrun with rfl | hrun
        · have hvalues := ih hrows (hcases ▸ mem_cons_self : first ∈ runs rows)
          rw [filter_cons_of_pos (by simp [hsame]), map_cons, hvalues]
        · refine hkeep (hcases ▸ mem_cons_of_mem first hrun) ?_
          exact hsame ▸ (hfirst run hrun).ne
      · have hlt : ∀ other ∈ runs rows, row.1 < other.1 := by
          have hle := le_of_mem_runs hrow (hcases ▸ mem_cons_self : first ∈ runs rows)
          have hltFirst : row.1 < first.1 := lt_of_le_of_ne hle (Ne.symm hsame)
          intro other hother
          rw [hcases] at hother
          rcases mem_cons.mp hother with rfl | hother
          · exact hltFirst
          · exact hltFirst.trans (hfirst other hother)
        rcases mem_cons.mp hrun with rfl | hrun
        · have hnone : (rows.filter fun other ↦ other.1 = row.1) = [] := by
            refine filter_eq_nil_iff.mpr ?_
            intro other hother hkey
            obtain ⟨run, hrun, hrunKey⟩ := mem_map.mp
              (mem_keys_runs.mpr (mem_map_of_mem hother) : other.1 ∈ (runs rows).map Prod.fst)
            have hkey : other.1 = row.1 := of_decide_eq_true hkey
            exact (hlt run hrun).ne (hkey ▸ hrunKey.symm)
          rw [filter_cons_of_pos (by simp), hnone]
          rfl
        · exact hkeep (hcases ▸ hrun) (hlt run (hcases ▸ hrun)).ne

end LinearOrder

def RunsInPages (size : ℕ) (rows : List (κ × β)) : Prop :=
  ∀ page, 0 < page → ∀ last ∈ rows[page * size - 1]?, ∀ first ∈ rows[page * size]?, last.1 ≠ first.1

theorem runsInPages_nil (size : ℕ) : RunsInPages size ([] : List (κ × β)) := by
  intro page _ last hlast
  cases hlast

theorem runsInPages_iff {size : ℕ} (hsize : 0 < size) (rows : List (κ × β)) :
    RunsInPages size rows ↔
      (∀ last ∈ (rows.take size).getLast?, ∀ first ∈ (rows.drop size).head?, last.1 ≠ first.1) ∧
        RunsInPages size (rows.drop size) := by
  have hfirst : (∀ last ∈ (rows.take size).getLast?, ∀ first ∈ (rows.drop size).head?,
      last.1 ≠ first.1) ↔
        ∀ last ∈ rows[1 * size - 1]?, ∀ first ∈ rows[1 * size]?, last.1 ≠ first.1 := by
    rw [Nat.one_mul, head?_drop, getLast?_take, if_neg hsize.ne']
    by_cases hmore : size < rows.length
    · have hinside : size - 1 < rows.length := by omega
      rw [getElem?_eq_getElem hinside, Option.some_or]
    · have hnone : rows[size]? = none := getElem?_eq_none (not_lt.mp hmore)
      simp [hnone]
  have hnext (page : ℕ) (hpage : 0 < page) :
      (rows.drop size)[page * size - 1]? = rows[(page + 1) * size - 1]? ∧
        (rows.drop size)[page * size]? = rows[(page + 1) * size]? := by
    have hpos : 0 < page * size := Nat.mul_pos hpage hsize
    rw [getElem?_drop, getElem?_drop, Nat.succ_mul]
    constructor
    · congr 1
      omega
    · rw [Nat.add_comm]
  rw [hfirst]
  constructor
  · intro h
    refine ⟨h 1 Nat.one_pos, ?_⟩
    intro page hpage
    rw [(hnext page hpage).1, (hnext page hpage).2]
    exact h (page + 1) (Nat.succ_pos page)
  · intro ⟨hone, hrest⟩ page hpage
    obtain ⟨before, rfl⟩ := Nat.exists_eq_succ_of_ne_zero hpage.ne'
    rcases Nat.eq_zero_or_pos before with rfl | hbefore
    · exact hone
    · have hlater := hrest before hbefore
      rwa [(hnext before hbefore).1, (hnext before hbefore).2] at hlater

section DecidableEq

variable [DecidableEq κ] {size : ℕ} {rows : List (κ × β)}

theorem flatMap_runs_pages (hsize : 0 < size) (h : RunsInPages size rows) :
    (pages size rows).flatMap runs = runs rows := by
  induction hn : rows.length using Nat.strong_induction_on generalizing rows with
  | _ n ih =>
    by_cases hrows : rows = []
    · rw [hrows, pages_nil, flatMap_nil, runs_nil]
    · have hpos : 0 < rows.length := length_pos_of_ne_nil hrows
      obtain ⟨hsplit, hrest⟩ := (runsInPages_iff hsize rows).mp h
      rw [pages_of_ne_nil hsize hrows, flatMap_cons,
        ih (rows.drop size).length (by rw [length_drop]; omega) hrest rfl,
        ← runs_append hsplit, take_append_drop]

theorem mem_keys_flatMap_runs_pages (hsize : 0 < size) {key : κ} :
    key ∈ ((pages size rows).flatMap runs).map Prod.fst ↔ key ∈ rows.map Prod.fst := by
  rw [map_flatMap, mem_flatMap]
  simp only [mem_keys_runs]
  rw [← mem_flatMap, ← map_flatMap, flatMap_id', flatten_pages hsize]

theorem length_flatMap_runs_pages_le (hsize : 0 < size) (rows : List (κ × β)) :
    ((pages size rows).flatMap runs).length ≤ rows.length := by
  have hlength : rows.length = ((pages size rows).map List.length).sum := by
    rw [← length_flatten, flatten_pages hsize]
  rw [hlength, length_flatMap]
  exact sum_le_sum fun page _ ↦ length_runs_le page

theorem nodup_flatMap_runs_pages (hsize : 0 < size)
    (h : (((pages size rows).flatMap runs).map Prod.fst).Nodup) : RunsInPages size rows := by
  induction hn : rows.length using Nat.strong_induction_on generalizing rows with
  | _ n ih =>
    by_cases hrows : rows = []
    · rw [hrows]
      exact runsInPages_nil size
    · have hpos : 0 < rows.length := length_pos_of_ne_nil hrows
      rw [pages_of_ne_nil hsize hrows, flatMap_cons, map_append, nodup_append] at h
      obtain ⟨-, hrest, hdisjoint⟩ := h
      refine (runsInPages_iff hsize rows).mpr ⟨?_, ?_⟩
      · intro last hlast first hfirst
        refine hdisjoint _ ?_ _ ?_
        · exact mem_keys_runs.mpr (mem_map_of_mem (mem_of_getLast? hlast))
        · exact (mem_keys_flatMap_runs_pages hsize).mpr
            (mem_map_of_mem (mem_of_head? hfirst))
      · exact ih (rows.drop size).length (by rw [length_drop]; omega) hrest rfl

end DecidableEq

end Runs

end Sentry.Library
