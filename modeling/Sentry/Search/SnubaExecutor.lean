import Sentry.Search.SequencePaginator
import Mathlib.Data.Rat.Floor

/-!
# The issue search executor

`PostgresSnubaQueryExecutor.query` of `search/snuba/executors.py` behind the search of Postgres
alone, with `snuba_search` and the cursor condition of `_prepare_params_for_category`. Snuba is
asked for one chunk of the groups of each category, all at the same offset; Postgres filters them
afterwards, unless there were few candidates; and the paginator makes a page of what has been found.
The data do not change, and the time for the loop is a number of chunks. Hits, metrics and the dates
of the search are left out.
-/

namespace Sentry.Search

variable {α : Type*} [LinearOrder α] [Zero α]

/-- A search: the groups of each category that match in Snuba, the groups that match in Postgres,
the limit of a page, and the options. -/
structure IssueSearch (α : Type*) where
  categories : List (List (ScoredGroup α))
  candidates : List ℕ
  limit : ℕ
  maxCandidates : ℕ
  chunkGrowth : ℚ
  maxChunkSize : ℕ
  maxLimit : ℕ
  ids_nodup : (categories.flatten.map ScoredGroup.groupId).Nodup
  candidates_nodup : candidates.Nodup
  limit_pos : 0 < limit
  one_lt_chunkGrowth : 1 < chunkGrowth
  limit_le_maxChunkSize : limit ≤ maxChunkSize
  maxLimit_pos : 0 < maxLimit

def cursorCondition : Option (Cursor α) → ScoredGroup α → Prop
  | none, _ => True
  | some c, g => if c.isPrev then c.value ≤ g.score else g.score ≤ c.value

instance (cursor : Option (Cursor α)) (g : ScoredGroup α) : Decidable (cursorCondition cursor g) :=
  match cursor with
  | none => isTrue trivial
  | some c => inferInstanceAs
    (Decidable (if c.isPrev then c.value ≤ g.score else g.score ≤ c.value))

/-- `orderby` of the questions: descending scores, and ascending ids where they are equal. -/
def ScoredGroup.SnubaPrecedes (a b : ScoredGroup α) : Prop :=
  b.score < a.score ∨ (b.score = a.score ∧ a.groupId ≤ b.groupId)

instance (a b : ScoredGroup α) : Decidable (a.SnubaPrecedes b) :=
  inferInstanceAs (Decidable (_ ∨ _))

def categoryResult (groups : List (ScoredGroup α)) (cursor : Option (Cursor α)) (groupIds : List ℕ)
    (limit offset : ℕ) : List (ScoredGroup α) × ℕ :=
  let matching := (groups.filter fun g ↦
    (groupIds = [] ∨ g.groupId ∈ groupIds) ∧ cursorCondition cursor g).insertionSort
      ScoredGroup.SnubaPrecedes
  ((matching.drop offset).take limit, matching.length)

namespace IssueSearch

variable (s : IssueSearch α)

def snubaSearch (cursor : Option (Cursor α)) (groupIds : List ℕ) (limit offset : ℕ) :
    List (ScoredGroup α) × ℕ :=
  let bulkQueryResults :=
    s.categories.map fun groups ↦ categoryResult groups cursor groupIds limit offset
  ((bulkQueryResults.flatMap Prod.fst).insertionSort fun a b ↦ a.groupId ≤ b.groupId,
    (bulkQueryResults.map Prod.snd).sum)

/-- The variables of the loop. -/
structure ChunkState (α : Type*) where
  chunkLimit : ℕ
  offset : ℕ
  resultGroups : List (ScoredGroup α)
  paginatorResults : CursorResult α
  moreResults : Bool

def postFilter (resultGroups snubaGroups : List (ScoredGroup α)) : List (ScoredGroup α) :=
  (s.candidates.filter fun id ↦ id ∉ resultGroups.map ScoredGroup.groupId).filterMap fun id ↦
    snubaGroups.find? fun g ↦ g.groupId = id

/-- `chunk_limit` of the next chunk: it grows up to a maximum, but not below the candidates sent. -/
def nextChunkLimit (groupIds : List ℕ) (chunkLimit : ℕ) : ℕ :=
  max (min (chunkLimit * s.chunkGrowth).floor.toNat s.maxChunkSize) groupIds.length

def readChunk (cursor : Option (Cursor α)) (groupIds : List ℕ) (st : ChunkState α) :
    ChunkState α × Bool :=
  let chunkLimit := s.nextChunkLimit groupIds st.chunkLimit
  let answer := s.snubaSearch cursor groupIds chunkLimit st.offset
  let snubaGroups := answer.1
  let total := answer.2
  let count := snubaGroups.length
  let moreResults := decide (s.limit ≤ count ∧ st.offset + s.limit < total)
  if snubaGroups = [] then
    ({ st with chunkLimit, offset := st.offset + count, moreResults }, false)
  else
    let resultGroups :=
      if groupIds = [] then st.resultGroups ++ s.postFilter st.resultGroups snubaGroups
      else snubaGroups
    let paginatorResults := getResult s.maxLimit s.limit cursor resultGroups
    ({ chunkLimit, offset := st.offset + count, resultGroups, paginatorResults, moreResults },
      groupIds = [] ∧ paginatorResults.results.length < s.limit ∧ moreResults)

def readChunks (cursor : Option (Cursor α)) (groupIds : List ℕ) : ℕ → ChunkState α → ChunkState α
  | 0, st => st
  | time + 1, st =>
    let chunk := s.readChunk cursor groupIds st
    if chunk.2 then readChunks cursor groupIds time chunk.1 else chunk.1

def emptyResult : CursorResult α := ⟨[], ⟨0, 0, true, false⟩, ⟨0, 0, false, false⟩⟩

def groupIds : List ℕ :=
  let groupIds := s.candidates.take (s.maxCandidates + 1)
  if s.maxCandidates < groupIds.length then [] else groupIds

def chunksRead (time : ℕ) (cursor : Option (Cursor α)) : ChunkState α :=
  s.readChunks cursor s.groupIds time ⟨s.limit, 0, [], emptyResult, false⟩

def query (time : ℕ) (cursor : Option (Cursor α)) : CursorResult α :=
  if s.candidates.take (s.maxCandidates + 1) = [] then emptyResult
  else
    let st := s.chunksRead time cursor
    let results := st.paginatorResults.results
    let allowsBack := match cursor with
      | none => false
      | some c => decide (¬c.isPrev ∨ results.length > 0)
    { results
      prev := { st.paginatorResults.prev with
        hasResults := st.paginatorResults.prev.hasResults || allowsBack }
      next := { st.paginatorResults.next with
        hasResults := st.paginatorResults.next.hasResults ||
          (results.length = s.limit && st.moreResults) } }

end IssueSearch

end Sentry.Search
