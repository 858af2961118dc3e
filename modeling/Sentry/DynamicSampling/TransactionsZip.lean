import Sentry.DynamicSampling.ProjectTransactions

/-!
# The zip of transactions

A fetch returns the runs of the pages of its rows (`fetchProjectTransactionVolumes_eq`). The zip is
the outer join of the two sides, with a search for totals for each element (`transactionsZip_eq`),
and over increasing projects the search by look-ahead finds the totals of each of them
(`inner_spec`, `mergeAll_eq`).
-/

namespace Sentry.DynamicSampling

open Library List

/-! ### Projects -/

theorem isSameProject_iff {left right : ProjectIdentity} :
    isSameProject (some left) (some right) = true ↔ left = right := by
  simp only [isSameProject, Bool.and_eq_true, decide_eq_true_eq, ProjectIdentity.ext_iff]
  exact And.comm

theorem isProjectIdentityBefore_iff {left right : ProjectIdentity} :
    isProjectIdentityBefore left right = true ↔ left < right := by
  have hlt : left < right ↔
      toLex (left.orgId, left.projectId) < toLex (right.orgId, right.projectId) := Iff.rfl
  rw [hlt, Prod.Lex.toLex_lt_toLex]
  simp [isProjectIdentityBefore]

/-! ### Fetching -/

theorem fetchProjectTransactionTotals_eq {chunkSize : ℕ} (hchunk : 0 < chunkSize)
    (rows : List TotalsRow) :
    fetchProjectTransactionTotals chunkSize rows = .ok (rows.map TotalsRow.toTotals) := by
  have hpending : ({} : Pager TotalsRow).pending chunkSize rows id = rows := by
    rw [Pager.pending, if_pos rfl, drop_zero, nil_append, flatMap_id, flatten_pages hchunk]
  have hfuel : (({} : Pager TotalsRow).pending chunkSize rows id).length < rows.length + 1 := by
    rw [hpending]
    exact Nat.lt_succ_self _
  have hload : ∀ page : List TotalsRow, page ≠ [] → id page ≠ [] := fun page hpage ↦ hpage
  rw [fetchProjectTransactionTotals, drain_next_eq hchunk rfl hload _ hfuel, hpending]
  rfl

def VolumeRow.keyed (row : VolumeRow) : ProjectIdentity × (String × ℚ) :=
  (row.toProjectIdentity, (row.transactionName, row.numTransactions))

def ofRun (run : ProjectIdentity × List (String × ℚ)) : ProjectTransactions :=
  ⟨run.1, run.2, none, none⟩

theorem collect_foldl_addRow (rows : List VolumeRow) {s : AddState} {current : ProjectIdentity}
    (hcurrent : s.current = some current) (hcounts : s.transactionCounts ≠ []) :
    (rows.foldl AddState.addRow s).collect = s.cache ++
      (runs (s.transactionCounts.map (fun counts ↦ (current, counts)) ++
        rows.map VolumeRow.keyed)).map ofRun := by
  induction rows generalizing s current with
  | nil =>
    rw [foldl_nil, AddState.collect, hcurrent, map_nil, append_nil, runs_map_key current hcounts]
    exact if_neg hcounts
  | cons row rows ih =>
    rw [foldl_cons, map_cons, AddState.addRow]
    by_cases hsame : s.current = some row.toProjectIdentity
    · have hproject : current = row.toProjectIdentity :=
        Option.some.inj (hcurrent.symm.trans hsame)
      have hrest := ih (s := { s with transactionCounts := s.transactionCounts ++
        [(row.transactionName, row.numTransactions)] }) hcurrent (by simp)
      rw [if_pos hsame, hrest, map_append, append_assoc, hproject]
      rfl
    · have hne : current ≠ row.toProjectIdentity := fun h ↦ hsame (hcurrent.trans (congrArg some h))
      have hcollect : s.collect = s.cache ++ [ofRun (current, s.transactionCounts)] := by
        rw [AddState.collect, hcurrent]
        exact if_neg hcounts
      have hsplit : runs (s.transactionCounts.map (fun counts ↦ (current, counts)) ++
          row.keyed :: rows.map VolumeRow.keyed) =
            (current, s.transactionCounts) :: runs (row.keyed :: rows.map VolumeRow.keyed) := by
        rw [runs_append ?_, runs_map_key current hcounts, singleton_append]
        intro last hlast first hfirst
        obtain ⟨counts, -, rfl⟩ := mem_map.mp (mem_of_getLast? hlast)
        rw [← Option.some.inj hfirst]
        exact hne
      have hrest := ih (s := ⟨s.collect, [(row.transactionName, row.numTransactions)],
        some row.toProjectIdentity⟩) rfl (by simp)
      rw [if_neg hsame, hsplit, map_cons, ← singleton_append (l := List.map ofRun _),
        ← append_assoc, ← hcollect]
      exact hrest

theorem addResultsToCache_eq (data : List VolumeRow) :
    addResultsToCache data = (runs (data.map VolumeRow.keyed)).map ofRun := by
  cases data with
  | nil => rfl
  | cons row rows =>
    exact collect_foldl_addRow rows rfl (by simp [AddState.addRow])

/-- The rows that are asked for. -/
def requested (maxTransactions : ℤ) (rows : List VolumeRow) : List VolumeRow :=
  if maxTransactions = 0 then [] else rows

def volumeItems (chunkSize : ℕ) (rows : List VolumeRow) : List ProjectTransactions :=
  ((pages chunkSize (rows.map VolumeRow.keyed)).flatMap runs).map ofRun

theorem fetchProjectTransactionVolumes_eq {chunkSize : ℕ} (hchunk : 0 < chunkSize)
    (maxTransactions : ℤ) (rows : List VolumeRow) :
    fetchProjectTransactionVolumes chunkSize maxTransactions rows =
      .ok (volumeItems chunkSize (requested maxTransactions rows)) := by
  rw [fetchProjectTransactionVolumes, requested]
  by_cases hmax : maxTransactions = 0
  · have hnext : volumesNext chunkSize maxTransactions rows {} = (none, {}) := if_pos hmax
    rw [drain, hnext, if_pos hmax]
    simp [volumeItems]
  · have hnext : volumesNext chunkSize maxTransactions rows =
        Pager.next chunkSize rows addResultsToCache := funext fun s ↦ if_neg hmax
    have hpending : ({} : Pager ProjectTransactions).pending chunkSize rows addResultsToCache =
        volumeItems chunkSize rows := by
      rw [Pager.pending, if_pos rfl, drop_zero, nil_append, volumeItems,
        pages_map hchunk, flatMap_map, map_flatMap]
      exact congrArg (List.flatMap · _) (funext addResultsToCache_eq)
    have hlength : (volumeItems chunkSize rows).length < rows.length + 1 := by
      have hle := length_flatMap_runs_pages_le hchunk (rows.map VolumeRow.keyed)
      rw [length_map] at hle
      rw [volumeItems, length_map]
      exact Nat.lt_succ_of_le hle
    have hload : ∀ page : List VolumeRow, page ≠ [] → addResultsToCache page ≠ [] := by
      intro page hpage
      rw [addResultsToCache_eq, Ne, map_eq_nil_iff]
      exact runs_ne_nil fun hnil ↦ hpage (map_eq_nil_iff.mp hnil)
    rw [hnext, drain_next_eq hchunk rfl hload _ (by rwa [hpending]), hpending, if_neg hmax]

/-! ### Merging -/

def unionByName (left right : List (String × ℚ)) : List (String × ℚ) :=
  left ++ right.filter fun transaction ↦ transaction.1 ∉ left.map Prod.fst

theorem mergeCounts_eq (left right : List (String × ℚ)) :
    mergeCounts left right = unionByName left right := by
  have hfold (merged : List (String × ℚ)) : right.foldl (fun merged transaction ↦
      if transaction.1 ∈ left.map Prod.fst then merged else merged ++ [transaction]) merged =
        merged ++ right.filter fun transaction ↦ transaction.1 ∉ left.map Prod.fst := by
    induction right generalizing merged with
    | nil => simp
    | cons transaction right ih =>
      rw [foldl_cons, ih]
      by_cases hname : transaction.1 ∈ left.map Prod.fst
      · rw [if_pos hname, filter_cons_of_neg (by simpa using hname)]
      · rw [if_neg hname, filter_cons_of_pos (by simpa using hname), append_assoc, singleton_append]
  exact hfold left

def withTotals (project : ProjectIdentity) (transactionCounts : List (String × ℚ))
    (totals : Option ProjectTransactionsTotals) : ProjectTransactions :=
  ⟨project, transactionCounts, totals.map (·.totalNumTransactions), totals.map (·.totalNumClasses)⟩

def mergeJoined (totals : Option ProjectTransactionsTotals) :
    Joined ProjectTransactions ProjectTransactions → ProjectTransactions
  | .left left => withTotals left.toProjectIdentity left.transactionCounts totals
  | .right right => withTotals right.toProjectIdentity right.transactionCounts totals
  | .both left right => withTotals left.toProjectIdentity
      (unionByName left.transactionCounts right.transactionCounts) totals

variable {totals : Option ProjectTransactionsTotals}

theorem mergeTotals_eq {left : ProjectTransactions}
    (htotals : ∀ total ∈ totals, total.toProjectIdentity = left.toProjectIdentity)
    (merged : List (String × ℚ)) :
    mergeTransactions.mergeTotals left merged totals =
      .ok (withTotals left.toProjectIdentity merged totals) := by
  cases totals with
  | none => rfl
  | some total => exact if_neg (not_not.mpr (isSameProject_iff.mpr (htotals total rfl).symm))

theorem mergeTransactions_none {left : ProjectTransactions}
    (htotals : ∀ total ∈ totals, total.toProjectIdentity = left.toProjectIdentity) :
    mergeTransactions left none totals =
      .ok (withTotals left.toProjectIdentity left.transactionCounts totals) :=
  mergeTotals_eq htotals _

theorem mergeTransactions_some {left right : ProjectTransactions}
    (hsame : left.toProjectIdentity = right.toProjectIdentity)
    (htotals : ∀ total ∈ totals, total.toProjectIdentity = left.toProjectIdentity) :
    mergeTransactions left (some right) totals = .ok (mergeJoined totals (.both left right)) := by
  have hmerged := mergeTotals_eq htotals
    (mergeCounts left.transactionCounts right.transactionCounts)
  rw [mergeCounts_eq] at hmerged
  rw [mergeJoined, ← hmerged, ← mergeCounts_eq]
  exact if_neg (not_not.mpr (isSameProject_iff.mpr hsame))

/-! ### Totals -/

namespace NextTotals

def pending (s : NextTotals) : List ProjectTransactionsTotals := s.current.toList ++ s.totals

/-- The total of a project. -/
def find (project : ProjectIdentity) (totals : List ProjectTransactionsTotals) :
    Option ProjectTransactionsTotals :=
  totals.find? fun total ↦ total.toProjectIdentity = project

variable {project : ProjectIdentity} {totals : List ProjectTransactionsTotals}

theorem find_eq_none_of_ne (h : ∀ total ∈ totals, total.toProjectIdentity ≠ project) :
    find project totals = none :=
  find?_eq_none.mpr fun total htotal ↦ by simpa using h total htotal

theorem find_append_of_ne (h : ∀ total ∈ totals, total.toProjectIdentity ≠ project)
    (others : List ProjectTransactionsTotals) :
    find project (totals ++ others) = find project others := by
  have hnone := find_eq_none_of_ne h
  rw [find] at hnone
  rw [find, find?_append, hnone, Option.none_or, find]

theorem identity_of_find {total : ProjectTransactionsTotals} (h : find project totals = some total)
    :
    total.toProjectIdentity = project := by
  rw [find, find?_eq_some_iff_append] at h
  exact of_decide_eq_true h.1

end NextTotals

open NextTotals

variable {totals : List ProjectTransactionsTotals}

theorem searchTotals_spec (project : ProjectIdentity)
    (hsorted : totals.Pairwise fun a b ↦ a.toProjectIdentity ≤ b.toProjectIdentity) :
    (searchTotals project totals).1 = find project totals ∧
      ∃ dropped, (∀ total ∈ dropped, total.toProjectIdentity ≤ project) ∧
        totals = dropped ++ ((searchTotals project totals).2.1.toList ++
          (searchTotals project totals).2.2) := by
  induction totals with
  | nil => exact ⟨rfl, [], by simp, rfl⟩
  | cons total totals ih =>
    obtain ⟨htotal, htotals⟩ := pairwise_cons.mp hsorted
    rw [searchTotals]
    split_ifs with hsame hbefore
    · have heq : total.toProjectIdentity = project := isSameProject_iff.mp hsame
      refine ⟨?_, [total], ?_, rfl⟩
      · rw [find, find?_cons_of_pos (by simpa using heq)]
      · intro other hother
        rw [mem_singleton.mp hother]
        exact heq.le
    · have hlt : project < total.toProjectIdentity := isProjectIdentityBefore_iff.mp hbefore
      refine ⟨?_, [], by simp, rfl⟩
      refine (find_eq_none_of_ne fun other hother ↦ ?_).symm
      rcases mem_cons.mp hother with rfl | hother
      · exact hlt.ne'
      · exact (hlt.trans_le (htotal other hother)).ne'
    · have hne : total.toProjectIdentity ≠ project := fun h ↦ hsame (isSameProject_iff.mpr h)
      have hle : total.toProjectIdentity ≤ project :=
        not_lt.mp fun h ↦ hbefore (isProjectIdentityBefore_iff.mpr h)
      obtain ⟨hfound, dropped, hdropped, hsplit⟩ := ih htotals
      refine ⟨?_, total :: dropped, ?_, ?_⟩
      · rw [hfound, find, find, find?_cons_of_neg (by simpa using hne)]
      · intro other hother
        rcases mem_cons.mp hother with rfl | hother
        · exact hle
        · exact hdropped other hother
      · rw [cons_append, ← hsplit]

theorem spec_of_searchTotals {project : ProjectIdentity} {s : NextTotals}
    (hsorted : s.pending.Pairwise fun a b ↦ a.toProjectIdentity ≤ b.toProjectIdentity)
    (hcurrent : ∀ current ∈ s.current, current.toProjectIdentity < project)
    {found passed : Option ProjectTransactionsTotals}
    (hsearch : searchTotals project s.totals = (found, passed, totals)) :
    found = find project s.pending ∧
      (⟨passed <|> s.current, totals⟩ : NextTotals).pending.Sublist s.pending ∧
        ∀ later, project < later →
          find later (⟨passed <|> s.current, totals⟩ : NextTotals).pending =
            find later s.pending := by
  have htotals := (pairwise_append.mp hsorted).2.1
  obtain ⟨hfound, dropped, hdropped, hsplit⟩ := searchTotals_spec project htotals
  rw [hsearch] at hfound hsplit
  have hstale {later : ProjectIdentity} (hlater : project ≤ later) :
      ∀ total ∈ s.current.toList, total.toProjectIdentity ≠ later :=
    fun total htotal ↦ ((hcurrent total (Option.mem_toList.mp htotal)).trans_le hlater).ne
  refine ⟨?_, ?_, ?_⟩
  · rw [pending, find_append_of_ne (hstale le_rfl)]
    exact hfound
  · rw [pending, pending, hsplit]
    cases passed with
    | none => exact (List.Sublist.refl _).append (sublist_append_right dropped totals)
    | some total =>
      exact (sublist_append_right dropped _).trans (sublist_append_right _ _)
  · intro later hlater
    have hgone : ∀ total ∈ dropped, total.toProjectIdentity ≠ later :=
      fun total htotal ↦ ((hdropped total htotal).trans_lt hlater).ne
    rw [pending, pending, find_append_of_ne (hstale hlater.le), hsplit, find_append_of_ne hgone]
    cases passed with
    | none => exact find_append_of_ne (hstale hlater.le) totals
    | some total => rfl

/-- Assumes: sorted totals. The search finds the total of the project, and keeps those of later
projects. -/
theorem inner_spec (project : ProjectIdentity) {s : NextTotals}
    (hsorted : s.pending.Pairwise fun a b ↦ a.toProjectIdentity ≤ b.toProjectIdentity) :
    (s.inner project).1 = find project s.pending ∧
      (s.inner project).2.pending.Sublist s.pending ∧
        ∀ later, project < later →
          find later (s.inner project).2.pending = find later s.pending := by
  cases hcurrent : s.current with
  | none =>
    rw [NextTotals.inner, if_neg (by simp [hcurrent, isSameProject]), if_neg (by simp [hcurrent])]
    exact spec_of_searchTotals hsorted (by simp [hcurrent]) rfl
  | some current =>
    have hpending : s.pending = current :: s.totals := by rw [pending, hcurrent]; rfl
    rcases lt_trichotomy current.toProjectIdentity project with hlt | heq | hgt
    · have hsame : ¬isSameProject (some current.toProjectIdentity) (some project) :=
        fun h ↦ hlt.ne (isSameProject_iff.mp h)
      have hbefore : ¬isProjectIdentityBefore project current.toProjectIdentity :=
        fun h ↦ hlt.not_gt (isProjectIdentityBefore_iff.mp h)
      rw [NextTotals.inner, if_neg (by rwa [hcurrent]), if_neg (by rwa [hcurrent])]
      refine spec_of_searchTotals hsorted ?_ rfl
      intro other hother
      rw [hcurrent] at hother
      exact Option.some.inj hother ▸ hlt
    · rw [NextTotals.inner, if_pos (by rw [hcurrent]; exact isSameProject_iff.mpr heq), hpending]
      refine ⟨?_, sublist_cons_self _ _, ?_⟩
      · rw [hcurrent, find, find?_cons_of_pos (by simpa using heq)]
      · intro later hlater
        rw [find, find, find?_cons_of_neg (by simpa using (heq.trans_lt hlater).ne)]
        rfl
    · have hbefore : isProjectIdentityBefore project current.toProjectIdentity :=
        isProjectIdentityBefore_iff.mpr hgt
      have hsame : ¬isSameProject (some current.toProjectIdentity) (some project) :=
        fun h ↦ hgt.ne' (isSameProject_iff.mp h)
      rw [NextTotals.inner, if_neg (by rwa [hcurrent]), if_pos (by rwa [hcurrent])]
      refine ⟨?_, List.Sublist.refl _, fun _ _ ↦ rfl⟩
      refine (find_eq_none_of_ne fun other hother ↦ ?_).symm
      rw [hpending] at hsorted hother
      rcases mem_cons.mp hother with rfl | hother
      · exact hgt.ne'
      · exact (hgt.trans_le ((pairwise_cons.mp hsorted).1 other hother)).ne'

/-! ### The zip -/

def joinSides (left right : List ProjectTransactions) :
    List (Joined ProjectTransactions ProjectTransactions) :=
  outerJoin (·.toProjectIdentity) (·.toProjectIdentity) left right

def projectOf (joined : Joined ProjectTransactions ProjectTransactions) : ProjectIdentity :=
  joined.key (·.toProjectIdentity) (·.toProjectIdentity)

def mergeAll : NextTotals → List (Joined ProjectTransactions ProjectTransactions) →
    List ProjectTransactions
  | _, [] => []
  | s, joined :: rest =>
    mergeJoined (s.inner (projectOf joined)).1 joined ::
      mergeAll (s.inner (projectOf joined)).2 rest

@[simp] theorem toProjectIdentity_mergeJoined (totals : Option ProjectTransactionsTotals)
    (joined : Joined ProjectTransactions ProjectTransactions) :
    (mergeJoined totals joined).toProjectIdentity = projectOf joined := by
  cases joined <;> rfl

theorem map_toProjectIdentity_mergeAll (s : NextTotals)
    (joined : List (Joined ProjectTransactions ProjectTransactions)) :
    (mergeAll s joined).map (·.toProjectIdentity) = joined.map projectOf := by
  induction joined generalizing s with
  | nil => rfl
  | cons first rest ih => simp [mergeAll, ih]

theorem mergeAll_eq {joined : List (Joined ProjectTransactions ProjectTransactions)}
    (hjoined : joined.Pairwise fun a b ↦ projectOf a < projectOf b) {s : NextTotals}
    (hsorted : s.pending.Pairwise fun a b ↦ a.toProjectIdentity ≤ b.toProjectIdentity) :
    mergeAll s joined =
      joined.map fun taken ↦ mergeJoined (find (projectOf taken) s.pending) taken := by
  induction joined generalizing s with
  | nil => rfl
  | cons first rest ih =>
    obtain ⟨hfirst, hrest⟩ := pairwise_cons.mp hjoined
    obtain ⟨hfound, hsublist, hlater⟩ := inner_spec (projectOf first) hsorted
    rw [mergeAll, map_cons, hfound, ih hrest (hsorted.sublist hsublist)]
    congr 1
    refine map_congr_left fun taken htaken ↦ ?_
    rw [hlater _ (hfirst taken htaken)]

namespace ZipState

def pendingLeft (s : ZipState) : List ProjectTransactions := s.leftElm.toList ++ s.left

def pendingRight (s : ZipState) : List ProjectTransactions := s.rightElm.toList ++ s.right

/-- A side that has stopped has nothing left. -/
structure Stopped (s : ZipState) : Prop where
  left : s.moreLeft = false → s.pendingLeft = []
  right : s.moreRight = false → s.pendingRight = []

end ZipState

theorem pullElm_eq {more : Bool} {elm : Option ProjectTransactions}
    {rest : List ProjectTransactions} (hstopped : more = false → elm.toList ++ rest = []) :
    ((pullElm more elm rest).1 = false → elm.toList ++ rest = []) ∧
      (pullElm more elm rest).2.1 = (elm.toList ++ rest).head? ∧
        (pullElm more elm rest).2.2 = (elm.toList ++ rest).tail := by
  cases elm with
  | some first => cases more <;> exact ⟨hstopped, rfl, rfl⟩
  | none =>
    cases rest with
    | nil => cases more <;> exact ⟨fun _ ↦ rfl, rfl, rfl⟩
    | cons next rest =>
      cases more with
      | false => cases hstopped rfl
      | true => exact ⟨hstopped, rfl, rfl⟩

theorem pull_eq {s : ZipState} (h : s.Stopped) :
    ∃ moreRight moreLeft, (moreLeft = false → s.pendingLeft = []) ∧
      (moreRight = false → s.pendingRight = []) ∧
        s.pull = ⟨moreRight, moreLeft, s.pendingLeft.head?, s.pendingRight.head?,
          s.pendingLeft.tail, s.pendingRight.tail, s.nextTotals⟩ := by
  obtain ⟨hmoreRight, hrightElm, hright⟩ := pullElm_eq h.right
  obtain ⟨hmoreLeft, hleftElm, hleft⟩ := pullElm_eq h.left
  refine ⟨_, _, hmoreLeft, hmoreRight, ?_⟩
  rw [ZipState.pendingLeft, ZipState.pendingRight, ← hleftElm, ← hleft, ← hrightElm, ← hright]
  rfl

theorem joinSides_eq_nil_iff (left right : List ProjectTransactions) :
    joinSides left right = [] ↔ left = [] ∧ right = [] := by
  constructor
  · intro hnil
    constructor
    · rw [← filterMap_fst_outerJoin (·.toProjectIdentity) (·.toProjectIdentity) left right,
        ← joinSides, hnil, filterMap_nil]
    · rw [← filterMap_snd_outerJoin (·.toProjectIdentity) (·.toProjectIdentity) left right,
        ← joinSides, hnil, filterMap_nil]
  · intro ⟨hleft, hright⟩
    rw [hleft, hright, joinSides, outerJoin_nil_left, map_nil]

theorem yieldElm_of_nil {s : ZipState} (h : s.Stopped) (hleft : s.pendingLeft = [])
    (hright : s.pendingRight = []) : s.pull.yieldElm = .ok none := by
  obtain ⟨moreRight, moreLeft, -, -, hpull⟩ := pull_eq h
  rw [hpull, hleft, hright]
  rfl

/-- A round that yields the item of what is taken first. -/
structure Yields (s : ZipState) (taken : Joined ProjectTransactions ProjectTransactions)
    (rest : List (Joined ProjectTransactions ProjectTransactions)) (t : ZipState) : Prop where
  yieldElm_eq : s.pull.yieldElm =
    .ok (some (mergeJoined (s.nextTotals.inner (projectOf taken)).1 taken, t))
  stopped : t.Stopped
  joinSides_eq : joinSides t.pendingLeft t.pendingRight = rest
  nextTotals_eq : t.nextTotals = (s.nextTotals.inner (projectOf taken)).2
  length_lt : t.pendingLeft.length + t.pendingRight.length <
    s.pendingLeft.length + s.pendingRight.length

section Round

variable {s : ZipState} {left right : ProjectTransactions}
  {lefts rights : List ProjectTransactions}

/-- A round that leaves a suffix of what is pending on each side. -/
theorem exists_yields_of_suffix (h : s.Stopped)
    {taken : Joined ProjectTransactions ProjectTransactions}
    (leftElm rightElm : Option ProjectTransactions) (lefts rights : List ProjectTransactions)
    (hyield : ∀ moreRight moreLeft, ZipState.yieldElm ⟨moreRight, moreLeft, s.pendingLeft.head?,
        s.pendingRight.head?, s.pendingLeft.tail, s.pendingRight.tail, s.nextTotals⟩ =
      .ok (some (mergeJoined (s.nextTotals.inner (projectOf taken)).1 taken,
        ⟨moreRight, moreLeft, leftElm, rightElm, lefts, rights,
          (s.nextTotals.inner (projectOf taken)).2⟩)))
    (hleft : leftElm.toList ++ lefts <:+ s.pendingLeft)
    (hright : rightElm.toList ++ rights <:+ s.pendingRight)
    (hlt : (leftElm.toList ++ lefts).length + (rightElm.toList ++ rights).length <
      s.pendingLeft.length + s.pendingRight.length) :
    ∃ t, Yields s taken (joinSides (leftElm.toList ++ lefts) (rightElm.toList ++ rights)) t := by
  obtain ⟨moreRight, moreLeft, hmoreLeft, hmoreRight, hpull⟩ := pull_eq h
  refine ⟨⟨moreRight, moreLeft, leftElm, rightElm, lefts, rights, _⟩,
    hpull ▸ hyield moreRight moreLeft, ⟨fun hmore ↦ ?_, fun hmore ↦ ?_⟩, rfl, rfl, hlt⟩
  · rw [hmoreLeft hmore] at hleft
    exact suffix_nil.mp hleft
  · rw [hmoreRight hmore] at hright
    exact suffix_nil.mp hright

theorem exists_yields_both (h : s.Stopped) (hleft : s.pendingLeft = left :: lefts)
    (hright : s.pendingRight = right :: rights)
    (hsame : left.toProjectIdentity = right.toProjectIdentity)
    (htotals : ∀ total ∈ (s.nextTotals.inner left.toProjectIdentity).1,
      total.toProjectIdentity = left.toProjectIdentity) :
    ∃ t, Yields s (.both left right) (joinSides lefts rights) t := by
  refine exists_yields_of_suffix h none none lefts rights (fun _ _ ↦ ?_)
    (hleft ▸ suffix_cons left lefts) (hright ▸ suffix_cons right rights) ?_
  · rw [hleft, hright]
    dsimp only [ZipState.yieldElm, head?_cons, tail_cons]
    rw [if_pos (isSameProject_iff.mpr hsame), mergeTransactions_some hsame htotals]
    rfl
  · rw [hleft, hright]
    simp
    omega

theorem head?_toList_append_tail (elms : List ProjectTransactions) :
    elms.head?.toList ++ elms.tail = elms := by
  cases elms <;> rfl

theorem exists_yields_left (h : s.Stopped) (hleft : s.pendingLeft = left :: lefts)
    (hbefore : ∀ right ∈ s.pendingRight.head?, left.toProjectIdentity < right.toProjectIdentity)
    (htotals : ∀ total ∈ (s.nextTotals.inner left.toProjectIdentity).1,
      total.toProjectIdentity = left.toProjectIdentity) :
    ∃ t, Yields s (.left left) (joinSides lefts s.pendingRight) t := by
  have hkept := head?_toList_append_tail s.pendingRight
  rw [← hkept]
  refine exists_yields_of_suffix h none _ lefts _ (fun _ _ ↦ ?_)
    (hleft ▸ suffix_cons left lefts) (by simp [hkept]) (by rw [hkept, hleft]; simp)
  rw [hleft]
  cases hhead : s.pendingRight.head? with
  | none =>
    dsimp only [ZipState.yieldElm, head?_cons, tail_cons]
    rw [mergeTransactions_none htotals]
    rfl
  | some right =>
    have hlt := hbefore right hhead
    dsimp only [ZipState.yieldElm, head?_cons, tail_cons]
    rw [if_neg fun hsame ↦ hlt.ne (isSameProject_iff.mp hsame),
      if_pos (isProjectIdentityBefore_iff.mpr hlt), mergeTransactions_none htotals]
    rfl

theorem exists_yields_right (h : s.Stopped) (hright : s.pendingRight = right :: rights)
    (hbefore : ∀ left ∈ s.pendingLeft.head?, right.toProjectIdentity < left.toProjectIdentity)
    (htotals : ∀ total ∈ (s.nextTotals.inner right.toProjectIdentity).1,
      total.toProjectIdentity = right.toProjectIdentity) :
    ∃ t, Yields s (.right right) (joinSides s.pendingLeft rights) t := by
  have hkept := head?_toList_append_tail s.pendingLeft
  rw [← hkept]
  refine exists_yields_of_suffix h _ none _ rights (fun _ _ ↦ ?_) (by simp [hkept])
    (hright ▸ suffix_cons right rights) (by rw [hkept, hright]; simp)
  rw [hright]
  cases hhead : s.pendingLeft.head? with
  | none =>
    dsimp only [ZipState.yieldElm, head?_cons, tail_cons]
    rw [mergeTransactions_none htotals]
    rfl
  | some left =>
    have hlt := hbefore left hhead
    dsimp only [ZipState.yieldElm, head?_cons, tail_cons]
    rw [if_neg fun hsame ↦ hlt.ne' (isSameProject_iff.mp hsame),
      if_neg fun hfirst ↦ hlt.not_gt (isProjectIdentityBefore_iff.mp hfirst),
      mergeTransactions_none htotals]
    rfl

theorem exists_yields (h : s.Stopped)
    (hsorted : s.nextTotals.pending.Pairwise fun a b ↦ a.toProjectIdentity ≤ b.toProjectIdentity)
    {taken : Joined ProjectTransactions ProjectTransactions}
    {rest : List (Joined ProjectTransactions ProjectTransactions)}
    (hjoin : joinSides s.pendingLeft s.pendingRight = taken :: rest) :
    ∃ t, Yields s taken rest t := by
  have htotals (project : ProjectIdentity) : ∀ total ∈ (s.nextTotals.inner project).1,
      total.toProjectIdentity = project := by
    intro total htotal
    rw [(inner_spec project hsorted).1] at htotal
    exact identity_of_find htotal
  cases hleft : s.pendingLeft with
  | nil =>
    rw [hleft, joinSides, outerJoin_nil_left] at hjoin
    cases hright : s.pendingRight with
    | nil =>
      rw [hright] at hjoin
      cases hjoin
    | cons right rights =>
      rw [hright] at hjoin
      obtain ⟨rfl, rfl⟩ := List.cons.inj hjoin
      have hyields := exists_yields_right h hright (by simp [hleft]) (htotals _)
      rwa [hleft, joinSides, outerJoin_nil_left] at hyields
  | cons left lefts =>
    rw [hleft, joinSides] at hjoin
    cases hright : s.pendingRight with
    | nil =>
      rw [hright, outerJoin_nil_right] at hjoin
      obtain ⟨rfl, rfl⟩ := List.cons.inj hjoin
      have hyields := exists_yields_left h hleft (by simp [hright]) (htotals _)
      rwa [hright, joinSides, outerJoin_nil_right] at hyields
    | cons right rights =>
      rw [hright, outerJoin] at hjoin
      split_ifs at hjoin with hsame hbefore <;> obtain ⟨rfl, rfl⟩ := List.cons.inj hjoin
      · exact exists_yields_both h hleft hright hsame (htotals _)
      · have hyields := exists_yields_left h hleft (by simpa [hright] using hbefore) (htotals _)
        rwa [hright] at hyields
      · have hafter : right.toProjectIdentity < left.toProjectIdentity :=
          lt_of_le_of_ne (not_lt.mp hbefore) (Ne.symm hsame)
        have hyields := exists_yields_right h hright (by simpa [hleft] using hafter) (htotals _)
        rwa [hleft] at hyields

end Round

theorem zipLoop_eq {fuel : ℕ} {s : ZipState} (h : s.Stopped)
    (hsorted : s.nextTotals.pending.Pairwise fun a b ↦ a.toProjectIdentity ≤ b.toProjectIdentity)
    (hfuel : s.pendingLeft.length + s.pendingRight.length < fuel) :
    zipLoop fuel s = .ok (mergeAll s.nextTotals (joinSides s.pendingLeft s.pendingRight)) := by
  induction fuel generalizing s with
  | zero => exact absurd hfuel (Nat.not_lt_zero _)
  | succ fuel ih =>
    rw [zipLoop]
    cases hjoin : joinSides s.pendingLeft s.pendingRight with
    | nil =>
      obtain ⟨hleft, hright⟩ := (joinSides_eq_nil_iff _ _).mp hjoin
      rw [yieldElm_of_nil h hleft hright]
      split_ifs <;> rfl
    | cons taken rest =>
      obtain ⟨t, ht⟩ := exists_yields h hsorted hjoin
      have hmore : (s.moreLeft || s.moreRight) = true := by
        by_contra hstop
        rw [Bool.not_eq_true, Bool.or_eq_false_iff] at hstop
        rw [h.left hstop.1, h.right hstop.2, (joinSides_eq_nil_iff [] []).mpr ⟨rfl, rfl⟩] at hjoin
        cases hjoin
      have hsublist := (inner_spec (projectOf taken) hsorted).2.1
      have hrest := ih ht.stopped (by rw [ht.nextTotals_eq]; exact hsorted.sublist hsublist)
        (by have := ht.length_lt; omega)
      rw [if_pos hmore, ht.yieldElm_eq, mergeAll, ← ht.nextTotals_eq, ← ht.joinSides_eq]
      show (zipLoop fuel t).map _ = _
      rw [hrest]
      rfl

theorem transactionsZip_eq
    (hsorted : totals.Pairwise fun a b ↦ a.toProjectIdentity ≤ b.toProjectIdentity)
    (left right : List ProjectTransactions) :
    transactionsZip totals left right =
      .ok (mergeAll { totals := totals } (joinSides left right)) := by
  have hstopped : ({ left := left, right := right, nextTotals := { totals := totals } } :
      ZipState).Stopped := by
    constructor
    · intro hmore
      cases hmore
    · intro hmore
      cases hmore
  exact zipLoop_eq hstopped hsorted (Nat.lt_succ_self _)

end Sentry.DynamicSampling
