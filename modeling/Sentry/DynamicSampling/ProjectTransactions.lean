import Sentry.Library.OuterJoin
import Sentry.Library.Paging
import Mathlib.Algebra.Order.Ring.Rat
import Mathlib.Data.Prod.Lex

/-!
# Transactions of projects

`dynamic_sampling/tasks/boost_low_volume_transactions`. Three results of queries are paged through:
the totals of projects, their large transactions and their small ones. The rows of a project are
collected into one item, and the items are zipped. A query is the list of its rows, read with a
limit and an offset; the zip takes the lists of what the iterators return
(`boostLowVolumeTransactions`).
-/

namespace Sentry.DynamicSampling

open Library

@[ext] structure ProjectIdentity where
  orgId : ℤ
  projectId : ℤ

instance projectIdentityLinearOrder : LinearOrder ProjectIdentity :=
  LinearOrder.lift' (fun project ↦ toLex (project.orgId, project.projectId)) fun a b h ↦ by
    have hpair : (a.orgId, a.projectId) = (b.orgId, b.projectId) := toLex.injective h
    exact ProjectIdentity.ext (congrArg Prod.fst hpair) (congrArg Prod.snd hpair)

def isSameProject : Option ProjectIdentity → Option ProjectIdentity → Bool
  | some left, some right =>
    decide (left.projectId = right.projectId) && decide (left.orgId = right.orgId)
  | _, _ => false

def isProjectIdentityBefore (left right : ProjectIdentity) : Bool :=
  decide (left.orgId < right.orgId) ||
    (decide (left.orgId = right.orgId) && decide (left.projectId < right.projectId))

structure ProjectTransactions extends ProjectIdentity where
  transactionCounts : List (String × ℚ)
  totalNumTransactions : Option ℚ
  totalNumClasses : Option ℤ
  deriving DecidableEq

structure ProjectTransactionsTotals extends ProjectIdentity where
  totalNumTransactions : ℚ
  totalNumClasses : ℤ
  deriving DecidableEq

/-- A row of the query for totals. -/
structure TotalsRow extends ProjectIdentity where
  numTransactions : ℚ
  numClasses : ℤ

/-- A row of the query for transactions. -/
structure VolumeRow extends ProjectIdentity where
  transactionName : String
  numTransactions : ℚ

/-- What the zip can raise. The last is for a loop that has not ended. -/
inductive ZipError
  | mismatchedTransactions (left right : ProjectIdentity)
  | mismatchedTotals (left totals : ProjectIdentity)
  | outOfFuel
  deriving DecidableEq

/-- `FetchProjectTransactionTotals._get_from_cache`. -/
def TotalsRow.toTotals (row : TotalsRow) : ProjectTransactionsTotals :=
  ⟨row.toProjectIdentity, row.numTransactions, row.numClasses⟩

/-- `FetchProjectTransactionTotals`, until it stops. -/
def fetchProjectTransactionTotals (chunkSize : ℕ) (rows : List TotalsRow) :
    Except ZipError (List ProjectTransactionsTotals) :=
  (drain (Pager.next chunkSize rows id) .outOfFuel (rows.length + 1) {}).map
    (List.map TotalsRow.toTotals)

/-- The variables of `_add_results_to_cache`. The two ids of the current project are set
together. -/
structure AddState where
  cache : List ProjectTransactions := []
  transactionCounts : List (String × ℚ) := []
  current : Option ProjectIdentity := none

def AddState.collect (s : AddState) : List ProjectTransactions :=
  match s.current with
  | none => s.cache
  | some current =>
    if s.transactionCounts = [] then s.cache
    else s.cache ++ [⟨current, s.transactionCounts, none, none⟩]

def AddState.addRow (s : AddState) (row : VolumeRow) : AddState :=
  let s := if s.current = some row.toProjectIdentity then s
    else { cache := s.collect, transactionCounts := [], current := some row.toProjectIdentity }
  { s with
    transactionCounts := s.transactionCounts ++ [(row.transactionName, row.numTransactions)] }

/-- `_add_results_to_cache`, with an empty cache. -/
def addResultsToCache (data : List VolumeRow) : List ProjectTransactions :=
  (data.foldl AddState.addRow {}).collect

/-- `FetchProjectTransactionVolumes.__next__`. -/
def volumesNext (chunkSize : ℕ) (maxTransactions : ℤ) (rows : List VolumeRow)
    (s : Pager ProjectTransactions) : Option ProjectTransactions × Pager ProjectTransactions :=
  if maxTransactions = 0 then (none, s) else s.next chunkSize rows addResultsToCache

/-- `FetchProjectTransactionVolumes`, until it stops. -/
def fetchProjectTransactionVolumes (chunkSize : ℕ) (maxTransactions : ℤ) (rows : List VolumeRow) :
    Except ZipError (List ProjectTransactions) :=
  drain (volumesNext chunkSize maxTransactions rows) .outOfFuel (rows.length + 1) {}

def mergeCounts (left right : List (String × ℚ)) : List (String × ℚ) :=
  let names := left.map Prod.fst
  right.foldl (fun merged transaction ↦
    if transaction.1 ∈ names then merged else merged ++ [transaction]) left

/-- `merge_transactions`. There is always a left side. -/
def mergeTransactions (left : ProjectTransactions) (right : Option ProjectTransactions)
    (totals : Option ProjectTransactionsTotals) : Except ZipError ProjectTransactions :=
  match right, totals with
  | some right, totals =>
    if ¬isSameProject (some left.toProjectIdentity) (some right.toProjectIdentity) then
      .error (.mismatchedTransactions left.toProjectIdentity right.toProjectIdentity)
    else mergeTotals (mergeCounts left.transactionCounts right.transactionCounts) totals
  | none, totals => mergeTotals left.transactionCounts totals
where
  mergeTotals (mergedTransactions : List (String × ℚ)) :
      Option ProjectTransactionsTotals → Except ZipError ProjectTransactions
    | none => .ok ⟨left.toProjectIdentity, mergedTransactions, none, none⟩
    | some totals =>
      if ¬isSameProject (some left.toProjectIdentity) (some totals.toProjectIdentity) then
        .error (.mismatchedTotals left.toProjectIdentity totals.toProjectIdentity)
      else
        .ok ⟨left.toProjectIdentity, mergedTransactions, some totals.totalNumTransactions,
          some totals.totalNumClasses⟩

/-- The variables of `next_totals`: the look-ahead and what is left of the iterator. -/
structure NextTotals where
  current : Option ProjectTransactionsTotals := none
  totals : List ProjectTransactionsTotals

def searchTotals (project : ProjectIdentity) : List ProjectTransactionsTotals →
    Option ProjectTransactionsTotals × Option ProjectTransactionsTotals ×
      List ProjectTransactionsTotals
  | [] => (none, none, [])
  | total :: totals =>
    if isSameProject (some total.toProjectIdentity) (some project) then (some total, none, totals)
    else if isProjectIdentityBefore project total.toProjectIdentity then (none, some total, totals)
    else searchTotals project totals

/-- The function that `next_totals` returns. -/
def NextTotals.inner (s : NextTotals) (project : ProjectIdentity) :
    Option ProjectTransactionsTotals × NextTotals :=
  if isSameProject (s.current.map (·.toProjectIdentity)) (some project) then
    (s.current, { s with current := none })
  else if s.current.any fun current ↦
      isProjectIdentityBefore project current.toProjectIdentity then (none, s)
  else
    let (found, passed, totals) := searchTotals project s.totals
    (found, ⟨passed <|> s.current, totals⟩)

/-- The variables of `transactions_zip`. -/
structure ZipState where
  moreRight : Bool := true
  moreLeft : Bool := true
  leftElm : Option ProjectTransactions := none
  rightElm : Option ProjectTransactions := none
  left : List ProjectTransactions
  right : List ProjectTransactions
  nextTotals : NextTotals

def pullElm (more : Bool) (elm : Option ProjectTransactions) (rest : List ProjectTransactions) :
    Bool × Option ProjectTransactions × List ProjectTransactions :=
  match more, elm, rest with
  | true, none, next :: rest => (true, some next, rest)
  | true, none, [] => (false, none, [])
  | more, elm, rest => (more, elm, rest)

def ZipState.pull (s : ZipState) : ZipState :=
  let (moreRight, rightElm, right) := pullElm s.moreRight s.rightElm s.right
  let (moreLeft, leftElm, left) := pullElm s.moreLeft s.leftElm s.left
  { s with
    moreRight := moreRight
    moreLeft := moreLeft
    leftElm := leftElm
    rightElm := rightElm
    left := left
    right := right }

def ZipState.yieldElm (s : ZipState) : Except ZipError (Option (ProjectTransactions × ZipState)) :=
  match s.leftElm, s.rightElm with
  | none, none => .ok none
  | some left, some right =>
    if isSameProject (some left.toProjectIdentity) (some right.toProjectIdentity) then
      let (totals, nextTotals) := s.nextTotals.inner left.toProjectIdentity
      (mergeTransactions left (some right) totals).map fun merged ↦
        some (merged, { s with leftElm := none, rightElm := none, nextTotals := nextTotals })
    else if isProjectIdentityBefore left.toProjectIdentity right.toProjectIdentity then
      let (totals, nextTotals) := s.nextTotals.inner left.toProjectIdentity
      (mergeTransactions left none totals).map fun merged ↦
        some (merged, { s with leftElm := none, nextTotals := nextTotals })
    else
      let (totals, nextTotals) := s.nextTotals.inner right.toProjectIdentity
      (mergeTransactions right none totals).map fun merged ↦
        some (merged, { s with rightElm := none, nextTotals := nextTotals })
  | some left, none =>
    let (totals, nextTotals) := s.nextTotals.inner left.toProjectIdentity
    (mergeTransactions left none totals).map fun merged ↦
      some (merged, { s with leftElm := none, nextTotals := nextTotals })
  | none, some right =>
    let (totals, nextTotals) := s.nextTotals.inner right.toProjectIdentity
    (mergeTransactions right none totals).map fun merged ↦
      some (merged, { s with rightElm := none, nextTotals := nextTotals })

/-- The loop of `transactions_zip`. -/
def zipLoop : ℕ → ZipState → Except ZipError (List ProjectTransactions)
  | 0, _ => .error .outOfFuel
  | fuel + 1, s =>
    if s.moreLeft || s.moreRight then do
      match ← s.pull.yieldElm with
      | none => .ok []
      | some (merged, t) => (zipLoop fuel t).map (merged :: ·)
    else .ok []

/-- `transactions_zip`. Every round takes an element of one side. -/
def transactionsZip (totals : List ProjectTransactionsTotals)
    (left right : List ProjectTransactions) : Except ZipError (List ProjectTransactions) :=
  zipLoop (left.length + right.length + 1)
    { left := left, right := right, nextTotals := { totals := totals } }

/-- `boost_low_volume_transactions`, for some organizations: the items for which a task is
started. -/
def boostLowVolumeTransactions (chunkSize : ℕ) (numBigTrans numSmallTrans : ℤ)
    (totals : List TotalsRow) (big small : List VolumeRow) :
    Except ZipError (List ProjectTransactions) := do
  let totals ← fetchProjectTransactionTotals chunkSize totals
  let big ← fetchProjectTransactionVolumes chunkSize numBigTrans big
  let small ← fetchProjectTransactionVolumes chunkSize numSmallTrans small
  transactionsZip totals big small

end Sentry.DynamicSampling
