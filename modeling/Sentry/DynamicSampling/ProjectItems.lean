import Sentry.DynamicSampling.TransactionsZip

/-!
# One item for each project

The zip of the three results yields an item for each project that has transactions, in order, with
all its transactions and its totals, exactly when no page of the large or the small transactions
ends between two rows of one project (`boostLowVolumeTransactions_oneItemEach_iff`). A project that
is cut by the end of a page is yielded twice, the second time without its totals.
-/

namespace Sentry.DynamicSampling

open Library NextTotals List

def transactionsOf (project : ProjectIdentity) (rows : List VolumeRow) : List (String × ℚ) :=
  (rows.filter fun row ↦ row.toProjectIdentity = project).map fun row ↦
    (row.transactionName, row.numTransactions)

def totalsOf (project : ProjectIdentity) (totals : List TotalsRow) : Option TotalsRow :=
  totals.find? fun row ↦ row.toProjectIdentity = project

/-- There is an item for each project of the large and the small transactions, in order, with the
union by name of its transactions, and with its totals when they are listed. -/
structure OneItemEach (totals : List TotalsRow) (big small : List VolumeRow)
    (items : List ProjectTransactions) : Prop where
  increasing : items.Pairwise fun item other ↦ item.toProjectIdentity < other.toProjectIdentity
  mem_iff : ∀ project, project ∈ items.map (·.toProjectIdentity) ↔
    project ∈ big.map (·.toProjectIdentity) ∨ project ∈ small.map (·.toProjectIdentity)
  transactionCounts : ∀ item ∈ items, item.transactionCounts =
    unionByName (transactionsOf item.toProjectIdentity big)
      (transactionsOf item.toProjectIdentity small)
  totals : ∀ item ∈ items,
    item.totalNumTransactions = (totalsOf item.toProjectIdentity totals).map (·.numTransactions) ∧
      item.totalNumClasses = (totalsOf item.toProjectIdentity totals).map (·.numClasses)

/-- No page of a size ends between two rows of one project. -/
def PagesKeepProjects (chunkSize : ℕ) (rows : List VolumeRow) : Prop :=
  ∀ page, 0 < page → ∀ last ∈ rows[page * chunkSize - 1]?, ∀ first ∈ rows[page * chunkSize]?,
    last.toProjectIdentity ≠ first.toProjectIdentity

theorem runsInPages_map_keyed_iff (chunkSize : ℕ) (rows : List VolumeRow) :
    RunsInPages chunkSize (rows.map VolumeRow.keyed) ↔ PagesKeepProjects chunkSize rows := by
  simp [RunsInPages, PagesKeepProjects, VolumeRow.keyed]

section VolumeItems

variable {chunkSize : ℕ} (hchunk : 0 < chunkSize) {rows : List VolumeRow}

theorem map_toProjectIdentity_volumeItems (chunkSize : ℕ) (rows : List VolumeRow) :
    (volumeItems chunkSize rows).map (·.toProjectIdentity) =
      ((pages chunkSize (rows.map VolumeRow.keyed)).flatMap runs).map Prod.fst := by
  rw [volumeItems, map_map]
  rfl

include hchunk

theorem mem_map_volumeItems_iff (project : ProjectIdentity) :
    project ∈ (volumeItems chunkSize rows).map (·.toProjectIdentity) ↔
      project ∈ rows.map (·.toProjectIdentity) := by
  rw [map_toProjectIdentity_volumeItems, mem_keys_flatMap_runs_pages hchunk, map_map]
  rfl

theorem pagesKeepProjects_of_nodup
    (hnodup : ((volumeItems chunkSize rows).map (·.toProjectIdentity)).Nodup) :
    PagesKeepProjects chunkSize rows := by
  rw [map_toProjectIdentity_volumeItems] at hnodup
  exact (runsInPages_map_keyed_iff chunkSize rows).mp (nodup_flatMap_runs_pages hchunk hnodup)

variable (hsorted : rows.Pairwise fun a b ↦ a.toProjectIdentity ≤ b.toProjectIdentity)
  (hpages : PagesKeepProjects chunkSize rows)

include hsorted hpages

theorem pairwise_volumeItems : (volumeItems chunkSize rows).Pairwise fun item other ↦
    item.toProjectIdentity < other.toProjectIdentity := by
  have hkeyed : (rows.map VolumeRow.keyed).Pairwise fun row other ↦ row.1 ≤ other.1 :=
    pairwise_map.mpr hsorted
  rw [volumeItems, flatMap_runs_pages hchunk ((runsInPages_map_keyed_iff _ _).mpr hpages)]
  exact pairwise_map.mpr (pairwise_runs hkeyed)

theorem transactionCounts_of_mem_volumeItems {item : ProjectTransactions}
    (hitem : item ∈ volumeItems chunkSize rows) :
    item.transactionCounts = transactionsOf item.toProjectIdentity rows := by
  have hkeyed : (rows.map VolumeRow.keyed).Pairwise fun row other ↦ row.1 ≤ other.1 :=
    pairwise_map.mpr hsorted
  rw [volumeItems, flatMap_runs_pages hchunk ((runsInPages_map_keyed_iff _ _).mpr hpages)] at hitem
  obtain ⟨run, hrun, rfl⟩ := mem_map.mp hitem
  have hvalues := eq_of_mem_runs hkeyed hrun
  rw [filter_map, map_map] at hvalues
  exact hvalues

omit hsorted hpages in
theorem transactionsOf_eq_nil {project : ProjectIdentity}
    (hnone : ∀ item ∈ volumeItems chunkSize rows, item.toProjectIdentity ≠ project) :
    transactionsOf project rows = [] := by
  rw [transactionsOf, map_eq_nil_iff, filter_eq_nil_iff]
  intro row hrow hproject
  have hmem : project ∈ rows.map (·.toProjectIdentity) :=
    of_decide_eq_true hproject ▸ mem_map_of_mem hrow
  obtain ⟨item, hitem, hkey⟩ := mem_map.mp ((mem_map_volumeItems_iff hchunk project).mpr hmem)
  exact hnone item hitem hkey

end VolumeItems

theorem find_map_toTotals (project : ProjectIdentity) (totals : List TotalsRow) :
    find project (totals.map TotalsRow.toTotals) =
      (totalsOf project totals).map TotalsRow.toTotals := by
  rw [find, find?_map]
  rfl

section Zip

variable {chunkSize : ℕ} {totals : List TotalsRow} {big small : List VolumeRow}

theorem map_toProjectIdentity_sublist (s : NextTotals) (left right : List ProjectTransactions) :
    (left.map (·.toProjectIdentity)).Sublist
        ((mergeAll s (joinSides left right)).map (·.toProjectIdentity)) ∧
      (right.map (·.toProjectIdentity)).Sublist
        ((mergeAll s (joinSides left right)).map (·.toProjectIdentity)) := by
  rw [map_toProjectIdentity_mergeAll]
  exact ⟨map_leftKey_sublist _ _ left right, map_rightKey_sublist _ _ left right⟩

theorem mem_map_mergeAll_iff (s : NextTotals) (left right : List ProjectTransactions)
    (project : ProjectIdentity) :
    project ∈ (mergeAll s (joinSides left right)).map (·.toProjectIdentity) ↔
      project ∈ left.map (·.toProjectIdentity) ∨ project ∈ right.map (·.toProjectIdentity) := by
  constructor
  · intro hproject
    rw [map_toProjectIdentity_mergeAll] at hproject
    obtain ⟨taken, htaken, rfl⟩ := mem_map.mp hproject
    cases taken with
    | left | both => exact Or.inl (mem_map_of_mem (mem_of_fst htaken rfl))
    | right b => exact Or.inr (mem_map_of_mem (mem_of_snd htaken rfl))
  · intro hproject
    obtain ⟨hleft, hright⟩ := map_toProjectIdentity_sublist s left right
    exact hproject.elim (fun h ↦ hleft.subset h) fun h ↦ hright.subset h

/-- Assumes: every page keeps projects together. What is taken has the transactions of its
project. -/
theorem transactionCounts_mergeJoined (hchunk : 0 < chunkSize)
    (hbig : big.Pairwise fun a b ↦ a.toProjectIdentity ≤ b.toProjectIdentity)
    (hsmall : small.Pairwise fun a b ↦ a.toProjectIdentity ≤ b.toProjectIdentity)
    (hbigPages : PagesKeepProjects chunkSize big) (hsmallPages : PagesKeepProjects chunkSize small)
    (found : Option ProjectTransactionsTotals)
    {taken : Joined ProjectTransactions ProjectTransactions}
    (htaken : taken ∈ joinSides (volumeItems chunkSize big) (volumeItems chunkSize small)) :
    (mergeJoined found taken).transactionCounts =
      unionByName (transactionsOf (projectOf taken) big)
        (transactionsOf (projectOf taken) small) := by
  have hleft := pairwise_volumeItems hchunk hbig hbigPages
  have hright := pairwise_volumeItems hchunk hsmall hsmallPages
  cases taken with
  | left a =>
    have ha := transactionCounts_of_mem_volumeItems hchunk hbig hbigPages (mem_of_fst htaken rfl)
    have hnone := transactionsOf_eq_nil hchunk (ne_of_left_mem_outerJoin hleft hright htaken)
    rw [projectOf, Joined.key, hnone, ← ha]
    simp [mergeJoined, withTotals, unionByName]
  | right b =>
    have hb := transactionCounts_of_mem_volumeItems hchunk hsmall hsmallPages
      (mem_of_snd htaken rfl)
    have hnone := transactionsOf_eq_nil hchunk (ne_of_right_mem_outerJoin hleft hright htaken)
    rw [projectOf, Joined.key, hnone, ← hb]
    simp [mergeJoined, withTotals, unionByName]
  | both a b =>
    have ha := transactionCounts_of_mem_volumeItems hchunk hbig hbigPages (mem_of_fst htaken rfl)
    have hb := transactionCounts_of_mem_volumeItems hchunk hsmall hsmallPages
      (mem_of_snd htaken rfl)
    rw [projectOf, Joined.key, ← ha, leftKey_eq_rightKey_of_both_mem htaken, ← hb]
    rfl

theorem oneItemEach_of_pagesKeepProjects (hchunk : 0 < chunkSize)
    (htotals : totals.Pairwise fun a b ↦ a.toProjectIdentity ≤ b.toProjectIdentity)
    (hbig : big.Pairwise fun a b ↦ a.toProjectIdentity ≤ b.toProjectIdentity)
    (hsmall : small.Pairwise fun a b ↦ a.toProjectIdentity ≤ b.toProjectIdentity)
    (hbigPages : PagesKeepProjects chunkSize big)
    (hsmallPages : PagesKeepProjects chunkSize small) :
    OneItemEach totals big small (mergeAll { totals := totals.map TotalsRow.toTotals }
      (joinSides (volumeItems chunkSize big) (volumeItems chunkSize small))) := by
  have hjoin : (joinSides (volumeItems chunkSize big) (volumeItems chunkSize small)).Pairwise
      fun taken other ↦ projectOf taken < projectOf other :=
    pairwise_outerJoin (pairwise_volumeItems hchunk hbig hbigPages)
      (pairwise_volumeItems hchunk hsmall hsmallPages)
  have hall := mergeAll_eq hjoin (s := { totals := totals.map TotalsRow.toTotals })
    (pairwise_map.mpr htotals)
  refine
    { increasing := ?_
      mem_iff := ?_
      transactionCounts := ?_
      totals := ?_ }
  · rw [hall]
    refine pairwise_map.mpr (hjoin.imp fun {taken other} h ↦ ?_)
    rwa [toProjectIdentity_mergeJoined, toProjectIdentity_mergeJoined]
  · intro project
    rw [mem_map_mergeAll_iff, mem_map_volumeItems_iff hchunk, mem_map_volumeItems_iff hchunk]
  · intro item hitem
    rw [hall] at hitem
    obtain ⟨taken, htaken, rfl⟩ := mem_map.mp hitem
    rw [toProjectIdentity_mergeJoined]
    exact transactionCounts_mergeJoined hchunk hbig hsmall hbigPages hsmallPages _ htaken
  · intro item hitem
    rw [hall] at hitem
    obtain ⟨taken, htaken, rfl⟩ := mem_map.mp hitem
    have hpending : ({ totals := totals.map TotalsRow.toTotals } : NextTotals).pending =
        totals.map TotalsRow.toTotals := rfl
    rw [toProjectIdentity_mergeJoined, hpending, find_map_toTotals]
    cases taken <;> cases totalsOf _ totals <;> exact ⟨rfl, rfl⟩

end Zip

/-- There is one item for each project exactly when no page of the large or the small transactions
ends between two rows of one project. -/
theorem boostLowVolumeTransactions_oneItemEach_iff {chunkSize : ℕ} (hchunk : 0 < chunkSize)
    (numBigTrans numSmallTrans : ℤ) {totals : List TotalsRow} {big small : List VolumeRow}
    (htotals : totals.Pairwise fun a b ↦ a.toProjectIdentity ≤ b.toProjectIdentity)
    (hbig : big.Pairwise fun a b ↦ a.toProjectIdentity ≤ b.toProjectIdentity)
    (hsmall : small.Pairwise fun a b ↦ a.toProjectIdentity ≤ b.toProjectIdentity) :
    ∃ items, boostLowVolumeTransactions chunkSize numBigTrans numSmallTrans totals big small =
        .ok items ∧
      (OneItemEach totals (requested numBigTrans big) (requested numSmallTrans small) items ↔
        PagesKeepProjects chunkSize (requested numBigTrans big) ∧
          PagesKeepProjects chunkSize (requested numSmallTrans small)) := by
  have hrequested {rows : List VolumeRow}
      (hrows : rows.Pairwise fun a b ↦ a.toProjectIdentity ≤ b.toProjectIdentity) (limit : ℤ) :
      (requested limit rows).Pairwise fun a b ↦ a.toProjectIdentity ≤ b.toProjectIdentity := by
    rw [requested]
    split_ifs
    · exact List.Pairwise.nil
    · exact hrows
  have hrun : boostLowVolumeTransactions chunkSize numBigTrans numSmallTrans totals big small =
      transactionsZip (totals.map TotalsRow.toTotals)
        (volumeItems chunkSize (requested numBigTrans big))
        (volumeItems chunkSize (requested numSmallTrans small)) := by
    rw [boostLowVolumeTransactions, fetchProjectTransactionTotals_eq hchunk,
      fetchProjectTransactionVolumes_eq hchunk, fetchProjectTransactionVolumes_eq hchunk]
    rfl
  rw [transactionsZip_eq (pairwise_map.mpr htotals)] at hrun
  refine ⟨_, hrun, ?_, ?_⟩
  · intro h
    have hnodup := pairwise_map.mpr (h.increasing.imp fun {item other} hlt ↦ hlt.ne)
    obtain ⟨hleft, hright⟩ := map_toProjectIdentity_sublist
      { totals := totals.map TotalsRow.toTotals }
      (volumeItems chunkSize (requested numBigTrans big))
      (volumeItems chunkSize (requested numSmallTrans small))
    exact ⟨pagesKeepProjects_of_nodup hchunk (hnodup.sublist hleft),
      pagesKeepProjects_of_nodup hchunk (hnodup.sublist hright)⟩
  · rintro ⟨hbigPages, hsmallPages⟩
    exact oneItemEach_of_pagesKeepProjects hchunk htotals (hrequested hbig numBigTrans)
      (hrequested hsmall numSmallTrans) hbigPages hsmallPages

/-- Two transactions of each of two projects. -/
def twoProjects : List VolumeRow :=
  [⟨⟨1, 1⟩, "a", 40⟩, ⟨⟨1, 1⟩, "b", 30⟩, ⟨⟨1, 2⟩, "c", 20⟩, ⟨⟨1, 2⟩, "d", 10⟩]

theorem twoProjects_oneItemEach :
    ∃ items,
      boostLowVolumeTransactions 2 2 0 [⟨⟨1, 2⟩, 50, 4⟩] twoProjects twoProjects = .ok items ∧
      OneItemEach [⟨⟨1, 2⟩, 50, 4⟩] twoProjects [] items := by
  have htotals : [(⟨⟨1, 2⟩, 50, 4⟩ : TotalsRow)].Pairwise fun a b ↦
      a.toProjectIdentity ≤ b.toProjectIdentity := pairwise_singleton _ _
  have hrows : twoProjects.Pairwise fun a b ↦ a.toProjectIdentity ≤ b.toProjectIdentity := by
    decide +kernel
  have hkeep : PagesKeepProjects 2 (requested 2 twoProjects) := by
    intro page hpage last hlast first hfirst
    have hlt : page * 2 < 4 := (List.getElem?_eq_some_iff.mp hfirst).1
    obtain rfl : page = 1 := by omega
    cases hlast
    cases hfirst
    decide +kernel
  have hnone : PagesKeepProjects 2 (requested 0 twoProjects) := by
    intro page _ last hlast
    cases hlast
  obtain ⟨items, hrun, hitems⟩ :=
    boostLowVolumeTransactions_oneItemEach_iff Nat.two_pos 2 0 htotals hrows hrows
  exact ⟨items, hrun, hitems.mpr ⟨hkeep, hnone⟩⟩

/-- Three transactions of one project, with the end of a page after the second. -/
def cutProject : List VolumeRow := [⟨⟨1, 1⟩, "a", 30⟩, ⟨⟨1, 1⟩, "b", 20⟩, ⟨⟨1, 1⟩, "c", 10⟩]

/-- The project is yielded twice, the second time without its totals. -/
theorem cutProject_twoItems :
    boostLowVolumeTransactions 2 3 3 [⟨⟨1, 1⟩, 60, 3⟩] cutProject [] =
        .ok [⟨⟨1, 1⟩, [("a", 30), ("b", 20)], some 60, some 3⟩, ⟨⟨1, 1⟩, [("c", 10)], none, none⟩] ∧
      ¬∃ items, boostLowVolumeTransactions 2 3 3 [⟨⟨1, 1⟩, 60, 3⟩] cutProject [] = .ok items ∧
        OneItemEach [⟨⟨1, 1⟩, 60, 3⟩] cutProject [] items := by
  have hrun : boostLowVolumeTransactions 2 3 3 [⟨⟨1, 1⟩, 60, 3⟩] cutProject [] =
      .ok [⟨⟨1, 1⟩, [("a", 30), ("b", 20)], some 60, some 3⟩,
        ⟨⟨1, 1⟩, [("c", 10)], none, none⟩] := by
    decide +kernel
  refine ⟨hrun, ?_⟩
  intro ⟨items, hitems, hone⟩
  rw [hrun] at hitems
  have hincreasing := hone.increasing
  rw [← Except.ok.inj hitems] at hincreasing
  have hlt := (pairwise_cons.mp hincreasing).1 _ (mem_singleton_self _)
  exact lt_irrefl (⟨1, 1⟩ : ProjectIdentity) hlt

end Sentry.DynamicSampling
