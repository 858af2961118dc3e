import Sentry.Library.Dictionary
import Mathlib.Algebra.Order.Field.Rat
import Mathlib.Data.List.Infix
import Mathlib.Data.List.Sort

/-!
# Repeated database queries

The detector looks for a query that is repeated after another one with the same parent. Its state
describes the run of repeated queries, or the source of the next one, at the end of what it has
visited (`Tracks`). A run is stored when it ends, so the stored problems are those of the maximal
runs that pass the checks, the first one for each fingerprint (`detects_runs`).
-/

namespace Sentry.PerformanceIssues

open List
open Library (setItem getItem)

abbrev Text := List Char

/-- What the detector reads of a span, and of the trace context. -/
structure Span where
  spanId : Option Text
  op : Option Text
  parentSpanId : Option Text
  hash : Option Text
  description : Option Text
  startTimestamp : ℚ
  timestamp : ℚ
  deriving DecidableEq

structure Event where
  trace : Option Span
  transaction : Option Text
  spans : List Span

structure Settings where
  count : ℤ
  durationThreshold : ℚ

structure PerformanceProblem where
  fingerprint : Text
  op : Text
  desc : Text
  parentSpanIds : List (Option Text)
  causeSpanIds : List (Option Text)
  offenderSpanIds : List (Option Text)
  offendingSpans : Text
  transactionName : Text
  parentSpan : Text
  repeatingSpans : Text
  repeatingSpansCompact : Text
  numRepeatingSpans : Text
  deriving DecidableEq

/-- Neither `None` nor empty. -/
def truthy : Option Text → Bool
  | some (_ :: _) => true
  | _ => false

/-- `str` of a text or of `None`. -/
def str (text : Option Text) : Text := text.getD "None".toList

/-! ### The checks -/

def isDbOp (op : Text) : Bool := "db".toList.isPrefixOf op && !"db.redis".toList.isPrefixOf op

/-- The time of the spans so far, and from when to when the last of them are. -/
structure Cover where
  totalDuration : ℚ
  currentMin : ℚ
  currentMax : ℚ

def Cover.extend (cover : Cover) (span : Span) : Cover :=
  if cover.currentMin ≤ span.startTimestamp ∧ span.startTimestamp ≤ cover.currentMax then
    { cover with currentMax := max span.timestamp cover.currentMax }
  else
    ⟨cover.totalDuration + (cover.currentMax - cover.currentMin), span.startTimestamp,
      span.timestamp⟩

def totalSpanTime (spanList : List Span) : ℚ :=
  match spanList.insertionSort fun a b ↦ a.startTimestamp ≤ b.startTimestamp with
  | [] => 0
  | first :: rest =>
    let cover := rest.foldl Cover.extend ⟨0, first.startTimestamp, first.timestamp⟩
    (cover.totalDuration + (cover.currentMax - cover.currentMin)) * 1000

def containsCompleteQuery (span : Span) (isSource : Bool) : Bool :=
  if isSource && truthy span.description then true
  else truthy span.description && !"...".toList.isSuffixOf (span.description.getD [])

def containsValidRepeatingQuery (span : Span) : Bool :=
  truthy span.description && (span.description.getD []).contains ' '

/-! ### The problem -/

def getSpanEvidenceValue (span : Span) (includeOp : Bool) : Text :=
  let op := span.op.getD []
  let desc := span.description.getD []
  if op = [] ∧ desc ≠ [] then desc
  else if desc = [] ∧ op ≠ [] then op
  else if op ≠ [] ∧ desc ≠ [] then if includeOp then op ++ " - ".toList ++ desc else desc
  else "no value".toList

def getNotificationAttachmentBody (op desc : Text) : Text :=
  if op = [] ∧ desc ≠ [] then desc
  else if op ≠ [] ∧ desc = [] then op
  else if op ≠ [] ∧ desc ≠ [] then op ++ " - ".toList ++ desc
  else "no value".toList

variable (sha1 : Text → Text)

def fingerprint (parentOp parentHash sourceHash nHash : Option Text) : Text :=
  "1-GroupType.PERFORMANCE_N_PLUS_ONE_DB_QUERIES-".toList ++
    sha1 (str parentOp ++ str parentHash ++ str sourceHash ++ str nHash)

def problemOf (event : Event) (parent source first : Span) (nSpans : List Span) :
    PerformanceProblem where
  fingerprint := fingerprint sha1 parent.op parent.hash source.hash first.hash
  op := "db".toList
  desc := first.description.getD []
  parentSpanIds := [source.parentSpanId]
  causeSpanIds := [source.spanId]
  offenderSpanIds := nSpans.map Span.spanId
  offendingSpans := getNotificationAttachmentBody "db".toList (first.description.getD [])
  transactionName := event.transaction.getD []
  parentSpan := getSpanEvidenceValue parent true
  repeatingSpans := getSpanEvidenceValue first true
  repeatingSpansCompact := getSpanEvidenceValue first false
  numRepeatingSpans := (toString nSpans.length).toList

/-! ### The detector -/

structure Detector where
  storedProblems : List (Text × PerformanceProblem)
  potentialParents : List (Option Text × Span)
  sourceSpan : Option Span
  nHash : Option Text
  nSpans : List Span

def rootParents (event : Event) : List (Option Text × Span) :=
  event.trace.toList.map fun root ↦ (root.spanId, root)

def Detector.init (event : Event) : Detector := ⟨[], rootParents event, none, none, []⟩

namespace Detector

def resetDetection (d : Detector) : Detector :=
  { d with sourceSpan := none, nHash := none, nSpans := [] }

def maybeUseAsSource (d : Detector) (span : Span) : Detector :=
  if !truthy span.parentSpanId || (getItem d.potentialParents span.parentSpanId).isNone then d
  else { d with sourceSpan := some span }

def continuesNPlus1 (d : Detector) (span : Span) : Bool × Detector :=
  match d.sourceSpan with
  | none => (false, d)
  | some source =>
    if !truthy span.parentSpanId || span.parentSpanId ≠ source.parentSpanId then (false, d)
    else if !truthy span.hash then (false, d)
    else if span.hash = source.hash then (false, d)
    else if !truthy d.nHash then (true, { d with nHash := span.hash })
    else (span.hash = d.nHash, d)

variable (settings : Settings) (event : Event)

def maybeStoreProblem (d : Detector) : Option Detector :=
  match d.sourceSpan, d.nSpans with
  | some source, first :: _ =>
    if (d.nSpans.length : ℤ) < settings.count then some d
    else if ¬ settings.durationThreshold ≤ totalSpanTime d.nSpans then some d
    else if !truthy source.parentSpanId then some d
    else do
      let parent ← getItem d.potentialParents source.parentSpanId
      if !containsCompleteQuery source true || !containsCompleteQuery first false then return d
      if !containsValidRepeatingQuery first then return d
      let problem := problemOf sha1 event parent source first d.nSpans
      if (getItem d.storedProblems problem.fingerprint).isSome then return d
      return { d with
        storedProblems := setItem problem.fingerprint problem d.storedProblems }
  | _, _ => some d

def visitSpan (d : Detector) (span : Span) : Option Detector :=
  if !truthy span.spanId || !truthy span.op then some d
  else if !isDbOp (span.op.getD []) then do
    let stored ← d.maybeStoreProblem sha1 settings event
    let reset := stored.resetDetection
    if truthy span.parentSpanId then
      return { reset with potentialParents := setItem span.spanId span reset.potentialParents }
    return reset
  else if d.sourceSpan.isNone then return d.maybeUseAsSource span
  else
    let continued := d.continuesNPlus1 span
    if continued.1 then return { continued.2 with nSpans := continued.2.nSpans ++ [span] }
    else do
      let previousSpan := continued.2.nSpans.getLast?
      let stored ← continued.2.maybeStoreProblem sha1 settings event
      -- Maybe the end of the run is the source of a new one.
      let started := previousSpan.elim stored.resetDetection
        fun previous ↦ stored.resetDetection.maybeUseAsSource previous
      let restarted := started.continuesNPlus1 span
      if restarted.1 then return { restarted.2 with nSpans := restarted.2.nSpans ++ [span] }
      else return { restarted.2 with sourceSpan := none }.maybeUseAsSource span

end Detector

/-- `run_detector_on_data`, with the problems that are stored. -/
def detect (settings : Settings) (event : Event) : Option (List (Text × PerformanceProblem)) := do
  let visited ← event.spans.foldlM (Detector.visitSpan sha1 settings event) (Detector.init event)
  let complete ← visited.maybeStoreProblem sha1 settings event
  return complete.storedProblems

/-! ### Runs of repeated queries -/

def isVisited (span : Span) : Bool := truthy span.spanId && truthy span.op

def visited (event : Event) : List Span := event.spans.filter isVisited

def Span.IsDb (span : Span) : Prop := isDbOp (span.op.getD []) = true

instance (span : Span) : Decidable span.IsDb :=
  inferInstanceAs (Decidable (isDbOp (span.op.getD []) = true))

def HasParent (event : Event) (before : List Span) (id : Option Text) : Prop :=
  (∃ root ∈ event.trace, root.spanId = id) ∨
    ∃ span ∈ before, ¬ span.IsDb ∧ truthy span.parentSpanId = true ∧ span.spanId = id

/-- A source and the spans after it with one hash, and what was visited before. -/
structure Run where
  before : List Span
  source : Span
  hash : Option Text
  spans : List Span

def Run.Continues (r : Run) (span : Span) : Prop :=
  span.IsDb ∧ span.hash = r.hash ∧ span.parentSpanId = r.source.parentSpanId

instance (r : Run) (span : Span) : Decidable (r.Continues span) :=
  inferInstanceAs (Decidable (span.IsDb ∧ span.hash = r.hash ∧
    span.parentSpanId = r.source.parentSpanId))

/-- Database spans with one hash and one parent, after one with the same parent and another hash. -/
structure Run.Repeats (event : Event) (r : Run) : Prop where
  source_isDb : r.source.IsDb
  parent : truthy r.source.parentSpanId = true
  hasParent : HasParent event r.before r.source.parentSpanId
  hash : truthy r.hash = true
  hash_ne : r.hash ≠ r.source.hash
  ne_nil : r.spans ≠ []
  continues : ∀ span ∈ r.spans, r.Continues span

def Run.MaximalIn (spans : List Span) (r : Run) : Prop :=
  ∃ after, spans = r.before ++ r.source :: r.spans ++ after ∧
    ∀ span ∈ after.head?, ¬ r.Continues span

def Run.Passes (settings : Settings) (r : Run) : Prop :=
  settings.count ≤ r.spans.length ∧ settings.durationThreshold ≤ totalSpanTime r.spans ∧
    containsCompleteQuery r.source true = true ∧
    ∀ first ∈ r.spans.head?, containsCompleteQuery first false = true ∧
      containsValidRepeatingQuery first = true

def parentsAfter (event : Event) (spans : List Span) : List (Option Text × Span) :=
  spans.foldl (fun parents span ↦
    if ¬ span.IsDb ∧ truthy span.parentSpanId = true then setItem span.spanId span parents
    else parents) (rootParents event)

/-- The problem of a run, if its parent is there. -/
def Run.problem (event : Event) (r : Run) : Option PerformanceProblem := do
  let parent ← getItem (parentsAfter event r.before) r.source.parentSpanId
  let first ← r.spans.head?
  return problemOf sha1 event parent r.source first r.spans

/-- A maximal run that passes the checks. -/
structure Run.Detected (settings : Settings) (event : Event) (r : Run) : Prop where
  repeats : r.Repeats event
  maximal : r.MaximalIn (visited event)
  passes : r.Passes settings

/-! ### Runs at the end of a list -/

variable {event : Event} {seen : List Span} {r r' : Run} {span : Span}

/-- The spans of a run are the last ones. -/
structure Run.EndsAt (event : Event) (seen : List Span) (r : Run) : Prop where
  repeats : r.Repeats event
  eq : seen = r.before ++ r.source :: r.spans

def UsableAt (event : Event) (seen : List Span) (source : Span) : Prop :=
  ∃ before, seen = before ++ [source] ∧ source.IsDb ∧ truthy source.parentSpanId = true ∧
    HasParent event before source.parentSpanId

theorem Run.Repeats.hash_eq_of_subset (h : r.Repeats event) (h' : r'.Repeats event)
    (hsub : r'.spans ⊆ r.spans) : r'.hash = r.hash := by
  obtain ⟨span, hspan⟩ := exists_mem_of_ne_nil _ h'.ne_nil
  rw [← (h'.continues span hspan).2.1, (h.continues span (hsub hspan)).2.1]

theorem Run.Repeats.spans_ne (h : r.Repeats event) (h' : r'.Repeats event) {rest : List Span}
    (hrest : r'.spans ⊆ rest) (middle : List Span) : r.spans ≠ middle ++ r'.source :: rest := by
  intro hspans
  have hhash := h.hash_eq_of_subset h' fun span hspan ↦ by simp [hspans, hrest hspan]
  exact h'.hash_ne (hhash.trans (h.continues _ (by simp [hspans])).2.1.symm)

theorem append_cons_cases {before before' spans spans' : List Span} {source source' : Span}
    (h : before ++ source :: spans = before' ++ source' :: spans')
    (hle : before.length ≤ before'.length) :
    (before = before' ∧ source = source' ∧ spans = spans') ∨
      ∃ middle, spans = middle ++ source' :: spans' := by
  rcases append_eq_append_iff.mp h with ⟨middle, hbefore, hrest⟩ | ⟨middle, hbefore, hrest⟩
  · cases middle with
    | nil =>
      rw [nil_append, List.cons.injEq] at hrest
      rw [append_nil] at hbefore
      exact Or.inl ⟨hbefore.symm, hrest⟩
    | cons first middle =>
      rw [cons_append, List.cons.injEq] at hrest
      exact Or.inr ⟨middle, hrest.2⟩
  · have hlength := congrArg List.length hbefore
    rw [length_append] at hlength
    obtain rfl : middle = [] := length_eq_zero_iff.mp (by omega)
    rw [nil_append, List.cons.injEq] at hrest
    rw [append_nil] at hbefore
    exact Or.inl ⟨hbefore, hrest.1.symm, hrest.2.symm⟩

theorem Run.EndsAt.unique (h : r.EndsAt event seen) (h' : r'.EndsAt event seen) : r = r' := by
  have hof : ∀ {r r' : Run}, r.EndsAt event seen → r'.EndsAt event seen →
      r.before.length ≤ r'.before.length → r = r' := by
    intro r r' h h' hle
    rcases append_cons_cases (h.eq.symm.trans h'.eq) hle with
      ⟨hbefore, hsource, hspans⟩ | ⟨middle, hspans⟩
    · have hhash := h.repeats.hash_eq_of_subset h'.repeats (hspans ▸ List.Subset.refl _)
      cases r
      cases r'
      congr
      exact hhash.symm
    · exact absurd hspans (h.repeats.spans_ne h'.repeats (List.Subset.refl _) middle)
  rcases le_total r.before.length r'.before.length with hle | hle
  · exact hof h h' hle
  · exact (hof h' h hle).symm

/-- A run that has ended: the next span does not belong to it. -/
structure Run.EndedIn (event : Event) (seen : List Span) (r : Run) : Prop where
  repeats : r.Repeats event
  ended : ∃ next after, seen = r.before ++ r.source :: r.spans ++ next :: after ∧ ¬ r.Continues next

theorem Run.EndedIn.lt (h' : r'.EndedIn event seen) (h : r.EndsAt event seen) :
    r'.before.length < r.before.length := by
  obtain ⟨next, after, heq, hnext⟩ := h'.ended
  rw [h.eq, append_assoc, cons_append] at heq
  by_contra hlt
  rcases append_cons_cases heq (not_lt.mp hlt) with ⟨-, hsource, hspans⟩ | ⟨middle, hspans⟩
  · have hsub : r'.spans ⊆ r.spans := by
      rw [hspans]
      exact subset_append_left _ _
    have hcontinues := h.repeats.continues next (by rw [hspans]; simp)
    refine hnext ⟨hcontinues.1, ?_, hsource ▸ hcontinues.2.2⟩
    rw [h.repeats.hash_eq_of_subset h'.repeats hsub]
    exact hcontinues.2.1
  · exact h.repeats.spans_ne h'.repeats (subset_append_left _ _) middle hspans

theorem Run.endedIn_concat_iff :
    r.EndedIn event (seen ++ [span]) ↔
      r.EndedIn event seen ∨ (r.EndsAt event seen ∧ ¬ r.Continues span) := by
  constructor
  · rintro ⟨hrepeats, next, after, heq, hnext⟩
    rcases eq_nil_or_concat' after with rfl | ⟨after, last, rfl⟩
    · obtain ⟨hseen, hspan⟩ := append_inj' heq rfl
      obtain rfl : span = next := singleton_injective hspan
      exact Or.inr ⟨⟨hrepeats, hseen⟩, hnext⟩
    · rw [← cons_append, ← append_assoc] at heq
      exact Or.inl ⟨hrepeats, next, after, (append_inj' heq rfl).1, hnext⟩
  · rintro (⟨hrepeats, next, after, rfl, hnext⟩ | ⟨hends, hnext⟩)
    · exact ⟨hrepeats, next, after ++ [span], by simp, hnext⟩
    · exact ⟨hends.repeats, span, [], by rw [hends.eq], hnext⟩

theorem Run.maximalIn_iff (h : r.Repeats event) :
    r.MaximalIn seen ↔ r.EndedIn event seen ∨ r.EndsAt event seen := by
  constructor
  · rintro ⟨after, heq, hnext⟩
    cases after with
    | nil => exact Or.inr ⟨h, heq.trans (append_nil _)⟩
    | cons next after => exact Or.inl ⟨h, next, after, heq, hnext next rfl⟩
  · rintro (⟨-, next, after, heq, hnext⟩ | ⟨-, heq⟩)
    · refine ⟨next :: after, heq, fun other hother ↦ ?_⟩
      rw [head?_cons, Option.mem_some_iff] at hother
      exact hother ▸ hnext
    · exact ⟨[], heq.trans (append_nil _).symm, fun _ h ↦ absurd h (by simp)⟩

theorem Run.endsAt_concat_iff :
    r.EndsAt event (seen ++ [span]) ↔
      (∃ spans, r.spans = spans ++ [span] ∧ { r with spans := spans }.EndsAt event seen ∧
        r.Continues span) ∨
      (r.Repeats event ∧ r.spans = [span] ∧ seen = r.before ++ [r.source]) := by
  constructor
  · rintro ⟨hrepeats, heq⟩
    rcases eq_nil_or_concat' r.spans with hnil | ⟨spans, last, hspans⟩
    · exact absurd hnil hrepeats.ne_nil
    · rw [hspans, ← cons_append, ← append_assoc] at heq
      obtain ⟨hseen, hlast⟩ := append_inj' heq rfl
      obtain rfl : span = last := singleton_injective hlast
      by_cases hnil : spans = []
      · rw [hnil] at hspans hseen
        exact Or.inr ⟨hrepeats, hspans, hseen⟩
      · refine Or.inl ⟨spans, hspans,
          ⟨{ hrepeats with ne_nil := hnil, continues := fun other hother ↦ ?_ }, hseen⟩, ?_⟩
        · exact hrepeats.continues other (hspans ▸ mem_append_left _ hother)
        · exact hrepeats.continues span (hspans ▸ mem_append_right _ (by simp))
  · rintro (⟨spans, hspans, ⟨hrepeats, hseen⟩, hcontinues⟩ | ⟨hrepeats, hspans, hseen⟩)
    · refine ⟨{ hrepeats with
        ne_nil := by rw [hspans]; simp
        continues := fun other hother ↦ ?_ }, ?_⟩
      · rw [hspans, mem_append, mem_singleton] at hother
        rcases hother with hold | rfl
        · exact hrepeats.continues other hold
        · exact hcontinues
      · rw [hseen, hspans, append_assoc]
        rfl
    · refine ⟨hrepeats, ?_⟩
      rw [hseen, hspans, append_assoc]
      rfl

/-! ### Parents -/

theorem parentsAfter_concat (event : Event) (seen : List Span) (span : Span) :
    parentsAfter event (seen ++ [span]) =
      if ¬ span.IsDb ∧ truthy span.parentSpanId = true then
        setItem span.spanId span (parentsAfter event seen)
      else parentsAfter event seen :=
  foldl_append

theorem isSome_parentsAfter (event : Event) (seen : List Span) (id : Option Text) :
    (getItem (parentsAfter event seen) id).isSome ↔ HasParent event seen id := by
  induction seen using reverseRecOn with
  | nil =>
    show (getItem (rootParents event) id).isSome ↔ _
    unfold rootParents HasParent
    cases event.trace with
    | none => simp
    | some root =>
      by_cases hroot : root.spanId = id
      all_goals simp [Library.getItem_cons, hroot]
  | append_singleton seen span ih =>
    have hconcat : HasParent event (seen ++ [span]) id ↔ HasParent event seen id ∨
        (¬ span.IsDb ∧ truthy span.parentSpanId = true ∧ span.spanId = id) := by
      unfold HasParent
      rw [or_assoc]
      refine or_congr_right ?_
      simp only [mem_append, mem_singleton]
      constructor
      · rintro ⟨other, hother | rfl, hspan⟩
        · exact Or.inl ⟨other, hother, hspan⟩
        · exact Or.inr hspan
      · rintro (⟨other, hother, hspan⟩ | hspan)
        · exact ⟨other, Or.inl hother, hspan⟩
        · exact ⟨span, Or.inr rfl, hspan⟩
    rw [parentsAfter_concat, hconcat, ← ih]
    by_cases hspan : ¬ span.IsDb ∧ truthy span.parentSpanId = true
    · rw [if_pos hspan, Library.getItem_setItem]
      by_cases hid : span.spanId = id
      · rw [if_pos hid]
        exact iff_of_true rfl (Or.inr ⟨hspan.1, hspan.2, hid⟩)
      · rw [if_neg hid]
        exact (or_iff_left fun h ↦ hid h.2.2).symm
    · rw [if_neg hspan]
      exact (or_iff_left fun h ↦ hspan ⟨h.1, h.2.1⟩).symm

theorem parentsAfter_append_of_isDb (event : Event) (seen : List Span) {spans : List Span}
    (h : ∀ span ∈ spans, span.IsDb) :
    parentsAfter event (seen ++ spans) = parentsAfter event seen := by
  induction spans generalizing seen with
  | nil => rw [append_nil]
  | cons span spans ih =>
    rw [append_cons, ih _ fun other hother ↦ h other (mem_cons_of_mem _ hother),
      parentsAfter_concat, if_neg fun hspan ↦ hspan.1 (h span mem_cons_self)]

theorem Run.EndsAt.parentsAfter_eq (h : r.EndsAt event seen) :
    parentsAfter event seen = parentsAfter event r.before := by
  rw [h.eq]
  refine parentsAfter_append_of_isDb event r.before fun other hother ↦ ?_
  rcases mem_cons.mp hother with rfl | hspan
  · exact h.repeats.source_isDb
  · exact (h.repeats.continues other hspan).1

theorem unusable_iff {parents : List (Option Text × Span)}
    (hparents : parents = parentsAfter event seen) (id : Option Text) :
    (!truthy id || (getItem parents id).isNone) = true ↔
      ¬ (truthy id = true ∧ HasParent event seen id) := by
  rw [hparents, ← isSome_parentsAfter]
  cases truthy id <;> simp

/-! ### Storing a run -/

variable {sha1 : Text → Text} {settings : Settings} {d : Detector}

def setDefault (stored : List (Text × PerformanceProblem)) (entry : Text × PerformanceProblem) :
    List (Text × PerformanceProblem) :=
  if (getItem stored entry.1).isSome then stored else setItem entry.1 entry.2 stored

instance (settings : Settings) (r : Run) : Decidable (r.Passes settings) :=
  inferInstanceAs (Decidable (_ ∧ _ ∧ _ ∧ _))

/-- The fingerprint and the problem of a run that passes the checks. -/
def Run.entry (sha1 : Text → Text) (settings : Settings) (event : Event) (r : Run) :
    Option (Text × PerformanceProblem) :=
  if r.Passes settings then (r.problem sha1 event).map fun problem ↦ (problem.fingerprint, problem)
  else none

def Run.store (sha1 : Text → Text) (settings : Settings) (event : Event)
    (stored : List (Text × PerformanceProblem)) (r : Run) : List (Text × PerformanceProblem) :=
  (r.entry sha1 settings event).elim stored (setDefault stored)

theorem Run.Repeats.exists_problem (h : r.Repeats event) {first : Span} {rest : List Span}
    (hspans : r.spans = first :: rest) : ∃ parent,
      getItem (parentsAfter event r.before) r.source.parentSpanId = some parent ∧
        r.problem sha1 event = some (problemOf sha1 event parent r.source first r.spans) := by
  obtain ⟨parent, hparent⟩ :=
    Option.isSome_iff_exists.mp ((isSome_parentsAfter event r.before _).mpr h.hasParent)
  refine ⟨parent, hparent, ?_⟩
  rw [Run.problem, hparent, hspans]
  rfl

/-- The detector has the run at the end of what it has visited, or the source of the next one. -/
structure Detector.Tracks (event : Event) (seen : List Span) (d : Detector) : Prop where
  parents : d.potentialParents = parentsAfter event seen
  state : (∃ r : Run, r.EndsAt event seen ∧ d.sourceSpan = some r.source ∧ d.nHash = r.hash ∧
      d.nSpans = r.spans) ∨
    ((∀ r : Run, ¬ r.EndsAt event seen) ∧ d.nHash = none ∧ d.nSpans = [] ∧
      ∀ source, d.sourceSpan = some source ↔ UsableAt event seen source)

namespace Detector

theorem maybeStoreProblem_of_endsAt (hparents : d.potentialParents = parentsAfter event seen)
    (hr : r.EndsAt event seen) (hsource : d.sourceSpan = some r.source)
    (hspans : d.nSpans = r.spans) :
    d.maybeStoreProblem sha1 settings event =
      some { d with storedProblems := r.store sha1 settings event d.storedProblems } := by
  obtain ⟨stored, parents, sourceSpan, nHash, nSpans⟩ := d
  obtain rfl : sourceSpan = some r.source := hsource
  obtain rfl : nSpans = r.spans := hspans
  obtain ⟨first, rest, hfirst⟩ := exists_cons_of_ne_nil hr.repeats.ne_nil
  obtain ⟨parent, hparent, hproblem⟩ := @Run.Repeats.exists_problem _ _ sha1 hr.repeats _ _ hfirst
  have hlookup : getItem parents r.source.parentSpanId = some parent := by
    rw [show parents = _ from hparents, hr.parentsAfter_eq, hparent]
  have hpasses : r.Passes settings ↔ settings.count ≤ r.spans.length ∧
      settings.durationThreshold ≤ totalSpanTime r.spans ∧
        containsCompleteQuery r.source true = true ∧ containsCompleteQuery first false = true ∧
          containsValidRepeatingQuery first = true := by
    rw [Run.Passes, hfirst]
    simp
  rw [maybeStoreProblem, Run.store, Run.entry]
  split
  next source first' rest' hsource' hspans' =>
    obtain rfl : r.source = source := Option.some.inj hsource'
    obtain ⟨rfl, -⟩ := List.cons.inj (hfirst.symm.trans hspans')
    by_cases hcount : (r.spans.length : ℤ) < settings.count
    · rw [if_pos hcount, if_neg fun h ↦ absurd (hpasses.mp h).1 (not_le.mpr hcount)]
      rfl
    by_cases htime : settings.durationThreshold ≤ totalSpanTime r.spans
    · rw [if_neg hcount, if_neg (not_not.mpr htime), hr.repeats.parent, hlookup]
      simp only [hpasses, not_lt.mp hcount, htime, true_and]
      cases containsCompleteQuery r.source true
      · rfl
      cases containsCompleteQuery first false
      · rfl
      cases containsValidRepeatingQuery first
      · rfl
      rw [if_pos (show true = true ∧ true = true ∧ true = true by decide), hproblem]
      by_cases hstored : (getItem stored
          (problemOf sha1 event parent r.source first r.spans).fingerprint).isSome = true
      · exact (if_pos hstored).trans (congrArg (fun l ↦ some (Detector.mk l _ _ _ _))
          (if_pos hstored).symm)
      · exact (if_neg hstored).trans (congrArg (fun l ↦ some (Detector.mk l _ _ _ _))
          (if_neg hstored).symm)
    · rw [if_neg hcount, if_pos htime, if_neg fun h ↦ htime (hpasses.mp h).2.1]
      rfl
  next hother => exact absurd hfirst (hother _ _ _ rfl)

theorem maybeStoreProblem_of_nil (h : d.nSpans = []) :
    d.maybeStoreProblem sha1 settings event = some d := by
  rw [maybeStoreProblem, h]
  cases d.sourceSpan with
  | none | some => rfl

end Detector

/-! ### One more span -/

variable {source : Span}

theorem usableAt_concat :
    UsableAt event (seen ++ [span]) source ↔ source = span ∧ span.IsDb ∧
      truthy span.parentSpanId = true ∧ HasParent event seen span.parentSpanId := by
  constructor
  · rintro ⟨before, heq, hdb, hparent, hhas⟩
    obtain ⟨rfl, hlast⟩ := append_inj' heq rfl
    obtain rfl : span = source := singleton_injective hlast
    exact ⟨rfl, hdb, hparent, hhas⟩
  · rintro ⟨rfl, h⟩
    exact ⟨seen, rfl, h⟩

def StartsAfter (source span : Span) : Prop :=
  span.parentSpanId = source.parentSpanId ∧ truthy span.hash = true ∧ span.hash ≠ source.hash

instance (source span : Span) : Decidable (StartsAfter source span) :=
  inferInstanceAs (Decidable (_ ∧ _ ∧ _))

theorem not_endsAt_concat (hold : ∀ r : Run, r.EndsAt event seen → ¬ r.Continues span)
    (hnew : ∀ source, UsableAt event seen source → ¬ StartsAfter source span) (r : Run) :
    ¬ r.EndsAt event (seen ++ [span]) := by
  rw [Run.endsAt_concat_iff]
  rintro (⟨spans, -, hends, hcontinues⟩ | ⟨hrepeats, hspans, hseen⟩)
  · exact hold _ hends hcontinues
  · obtain ⟨-, hhash, hparent⟩ := hrepeats.continues span (hspans ▸ mem_singleton_self span)
    refine hnew r.source ⟨r.before, hseen, hrepeats.source_isDb, hrepeats.parent,
      hrepeats.hasParent⟩ ⟨hparent, ?_, ?_⟩
    · rw [hhash]
      exact hrepeats.hash
    · rw [hhash]
      exact hrepeats.hash_ne

namespace Detector

theorem tracks_maybeUseAsSource (hparents : d.potentialParents = parentsAfter event seen)
    (hsource : d.sourceSpan = none) (hhash : d.nHash = none) (hspans : d.nSpans = [])
    (hdb : span.IsDb) (hnone : ∀ r : Run, ¬ r.EndsAt event (seen ++ [span])) :
    (d.maybeUseAsSource span).Tracks event (seen ++ [span]) ∧
      (d.maybeUseAsSource span).storedProblems = d.storedProblems := by
  have hconcat : d.potentialParents = parentsAfter event (seen ++ [span]) := by
    rw [hparents, parentsAfter_concat, if_neg fun h ↦ h.1 hdb]
  unfold maybeUseAsSource
  by_cases husable : truthy span.parentSpanId = true ∧ HasParent event seen span.parentSpanId
  · rw [if_neg ((unusable_iff hparents _).not.mpr (not_not.mpr husable))]
    refine ⟨⟨hconcat, Or.inr ⟨hnone, hhash, hspans, fun source ↦ ?_⟩⟩, rfl⟩
    rw [usableAt_concat, Option.some.injEq]
    exact ⟨fun h ↦ ⟨h.symm, hdb, husable⟩, fun h ↦ h.1.symm⟩
  · rw [if_pos ((unusable_iff hparents _).mpr husable)]
    refine ⟨⟨hconcat, Or.inr ⟨hnone, hhash, hspans, fun source ↦ ?_⟩⟩, rfl⟩
    rw [usableAt_concat, hsource]
    exact iff_of_false (by simp) fun h ↦ husable h.2.2

theorem tracks_begin (hparents : d.potentialParents = parentsAfter event seen)
    (hsource : d.sourceSpan = some source) (husable : UsableAt event seen source)
    (hdb : span.IsDb) (hstarts : StartsAfter source span) :
    ({ d with nHash := span.hash, nSpans := [span] } : Detector).Tracks event (seen ++ [span]) := by
  obtain ⟨before, hseen, hsourceDb, hparent, hhas⟩ := husable
  refine ⟨?_, Or.inl ⟨⟨before, source, span.hash, [span]⟩, ?_, hsource, rfl, rfl⟩⟩
  · rw [parentsAfter_concat, if_neg fun h ↦ h.1 hdb]
    exact hparents
  · refine Run.endsAt_concat_iff.mpr (Or.inr ⟨?_, rfl, hseen⟩)
    refine ⟨hsourceDb, hparent, hhas, hstarts.2.1, hstarts.2.2, cons_ne_nil _ _,
      fun other hother ↦ ?_⟩
    obtain rfl := mem_singleton.mp hother
    exact ⟨hdb, rfl, hstarts.1⟩

theorem continuesNPlus1_eq (hsource : d.sourceSpan = some source)
    (hparent : truthy source.parentSpanId = true) :
    d.continuesNPlus1 span =
      if StartsAfter source span then
        if truthy d.nHash then (decide (span.hash = d.nHash), d)
        else (true, { d with nHash := span.hash })
      else (false, d) := by
  unfold continuesNPlus1 StartsAfter
  rw [hsource]
  by_cases hsame : span.parentSpanId = source.parentSpanId
  · by_cases hhash : truthy span.hash = true
    · by_cases heq : span.hash = source.hash
      · simp [hsame, hparent, heq]
      · by_cases hnHash : truthy d.nHash = true <;> simp [hsame, hparent, hhash, heq, hnHash]
    · simp [hsame, hparent, hhash]
  · simp [hsame]

theorem continuesNPlus1_of_source (hsource : d.sourceSpan = some source)
    (hhash : d.nHash = none) (hparent : truthy source.parentSpanId = true) :
    d.continuesNPlus1 span =
      if StartsAfter source span then (true, { d with nHash := span.hash }) else (false, d) := by
  rw [continuesNPlus1_eq hsource hparent, hhash]
  rfl

theorem continuesNPlus1_of_endsAt (hr : r.EndsAt event seen)
    (hsource : d.sourceSpan = some r.source) (hhash : d.nHash = r.hash) (hdb : span.IsDb) :
    d.continuesNPlus1 span = (decide (r.Continues span), d) := by
  rw [continuesNPlus1_eq hsource hr.repeats.parent, hhash, if_pos hr.repeats.hash]
  by_cases heq : span.hash = r.hash
  · have hstarts : StartsAfter r.source span ↔ r.Continues span := by
      simp [StartsAfter, Run.Continues, heq, hdb, hr.repeats.hash, hr.repeats.hash_ne]
    simp only [hstarts, heq, decide_true]
    split_ifs with hcontinues <;> simp [hcontinues]
  · rw [decide_eq_false heq, ite_self, decide_eq_false fun h : r.Continues span ↦ heq h.2.1]

end Detector

theorem HasParent.append {before : List Span} {id : Option Text} (h : HasParent event before id)
    (spans : List Span) : HasParent event (before ++ spans) id := by
  rcases h with hroot | ⟨span, hspan, hparent⟩
  · exact Or.inl hroot
  · exact Or.inr ⟨span, mem_append_left _ hspan, hparent⟩

theorem UsableAt.hasParent (h : UsableAt event seen source) :
    truthy source.parentSpanId = true ∧ HasParent event seen source.parentSpanId := by
  obtain ⟨before, rfl, -, hparent, hhas⟩ := h
  exact ⟨hparent, hhas.append _⟩

theorem UsableAt.unique {source source' : Span} (h : UsableAt event seen source)
    (h' : UsableAt event seen source') : source = source' := by
  obtain ⟨before, heq, -⟩ := h
  obtain ⟨before', heq', -⟩ := h'
  exact singleton_injective (append_inj' (heq.symm.trans heq') rfl).2

theorem Run.EndsAt.exists_usableAt (h : r.EndsAt event seen) :
    ∃ last, r.spans.getLast? = some last ∧ UsableAt event seen last := by
  obtain ⟨spans, last, hspans⟩ := (eq_nil_or_concat' r.spans).resolve_left h.repeats.ne_nil
  obtain ⟨hdb, -, hparent⟩ := h.repeats.continues last (by rw [hspans]; simp)
  refine ⟨last, by rw [hspans, getLast?_concat], r.before ++ r.source :: spans, ?_, hdb, ?_, ?_⟩
  · rw [h.eq, hspans, append_assoc]
    rfl
  · rw [hparent]
    exact h.repeats.parent
  · rw [hparent]
    exact h.repeats.hasParent.append _

def Closes (sha1 : Text → Text) (settings : Settings) (event : Event) (seen : List Span)
    (span : Span) (stored stored' : List (Text × PerformanceProblem)) : Prop :=
  (∃ r : Run, r.EndsAt event seen ∧ ¬ r.Continues span ∧
    stored' = r.store sha1 settings event stored) ∨
  ((∀ r : Run, r.EndsAt event seen → r.Continues span) ∧ stored' = stored)

namespace Detector

theorem tracks_restart (hparents : d.potentialParents = parentsAfter event seen)
    (hhash : d.nHash = none) (hspans : d.nSpans = []) (hdb : span.IsDb)
    (hsource : ∀ source, d.sourceSpan = some source ↔ UsableAt event seen source)
    (hold : ∀ r : Run, r.EndsAt event seen → ¬ r.Continues span) :
    let restarted := d.continuesNPlus1 span
    let next := if restarted.1 then
        { restarted.2 with nSpans := restarted.2.nSpans ++ [span] }
      else { restarted.2 with sourceSpan := none }.maybeUseAsSource span
    next.Tracks event (seen ++ [span]) ∧ next.storedProblems = d.storedProblems := by
  have hforget (hnew : ∀ source, UsableAt event seen source → ¬ StartsAfter source span) :
      (({ d with sourceSpan := none } : Detector).maybeUseAsSource span).Tracks event
          (seen ++ [span]) ∧
        (({ d with sourceSpan := none } : Detector).maybeUseAsSource span).storedProblems =
          d.storedProblems :=
    tracks_maybeUseAsSource hparents rfl hhash hspans hdb (not_endsAt_concat hold hnew)
  cases hsome : d.sourceSpan with
  | none =>
    have hcontinued : d.continuesNPlus1 span = (false, d) := by
      unfold continuesNPlus1
      rw [hsome]
    rw [hcontinued]
    refine hforget fun source husable ↦ ?_
    rw [(hsource source).mpr husable] at hsome
    exact absurd hsome (by simp)
  | some source =>
    have husable := (hsource source).mp hsome
    rw [continuesNPlus1_of_source hsome hhash husable.hasParent.1]
    by_cases hstarts : StartsAfter source span
    · rw [if_pos hstarts, hspans]
      exact ⟨tracks_begin hparents hsome husable hdb hstarts, rfl⟩
    · rw [if_neg hstarts]
      refine hforget fun other hother ↦ ?_
      obtain rfl : source = other :=
        Option.some.inj (hsome.symm.trans ((hsource other).mpr hother))
      exact hstarts

theorem not_visible_eq : (!truthy span.spanId || !truthy span.op) = !isVisited span :=
  (Bool.not_and _ _).symm

/-- Assumes: the span does not continue a run or begin one after the source. The run is stored, and
its last span may be the source of a new one. -/
theorem visitSpan_of_not_continues {stored : Detector}
    (hvisible : isVisited span = true) (hdb : span.IsDb) (hsource : d.sourceSpan = some source)
    (hcontinued : d.continuesNPlus1 span = (false, d))
    (hstored : d.maybeStoreProblem sha1 settings event = some stored) :
    let started := d.nSpans.getLast?.elim stored.resetDetection stored.resetDetection.maybeUseAsSource
    let restarted := started.continuesNPlus1 span
    d.visitSpan sha1 settings event span =
      some (if restarted.1 then { restarted.2 with nSpans := restarted.2.nSpans ++ [span] }
        else { restarted.2 with sourceSpan := none }.maybeUseAsSource span) := by
  intro started restarted
  rw [visitSpan, not_visible_eq, hvisible, show isDbOp (span.op.getD []) = true from hdb, hsource,
    hcontinued]
  show (d.maybeStoreProblem sha1 settings event).bind _ = _
  rw [hstored, apply_ite some]
  rfl

theorem exists_visitSpan_of_isDb (hd : d.Tracks event seen)
    (hvisible : isVisited span = true) (hdb : span.IsDb) :
    ∃ d', d.visitSpan sha1 settings event span = some d' ∧ d'.Tracks event (seen ++ [span]) ∧
      Closes sha1 settings event seen span d.storedProblems d'.storedProblems := by
  have hdb' : isDbOp (span.op.getD []) = true := hdb
  rcases hd.state with ⟨r, hr, hsource, hhash, hspans⟩ | ⟨hnone, hhash, hspans, hsource⟩
  · have hcontinued := continuesNPlus1_of_endsAt hr hsource hhash hdb
    by_cases hcontinues : r.Continues span
    · rw [decide_eq_true hcontinues] at hcontinued
      refine ⟨{ d with nSpans := d.nSpans ++ [span] }, ?_, ⟨?_, Or.inl
        ⟨{ r with spans := r.spans ++ [span] }, ?_, hsource, hhash, ?_⟩⟩, Or.inr ⟨?_, rfl⟩⟩
      · rw [visitSpan, not_visible_eq, hvisible, hdb', hcontinued,
          show d.sourceSpan.isNone = false by rw [hsource]; rfl]
        rfl
      · rw [parentsAfter_concat, if_neg fun h ↦ h.1 hdb]
        exact hd.parents
      · exact Run.endsAt_concat_iff.mpr (Or.inl ⟨r.spans, rfl, hr, hcontinues⟩)
      · show d.nSpans ++ [span] = r.spans ++ [span]
        rw [hspans]
      · exact fun other hother ↦ hr.unique hother ▸ hcontinues
    · rw [decide_eq_false hcontinues] at hcontinued
      -- The last span of the run is the source now.
      obtain ⟨last, hlast, husable⟩ := hr.exists_usableAt
      have hstarted : maybeUseAsSource ⟨r.store sha1 settings event d.storedProblems,
          d.potentialParents, none, none, []⟩ last = ⟨r.store sha1 settings event
            d.storedProblems, d.potentialParents, some last, none, []⟩ :=
        if_neg ((unusable_iff hd.parents _).not.mpr (not_not.mpr husable.hasParent))
      have hnext := @tracks_restart event seen span
        ⟨r.store sha1 settings event d.storedProblems, d.potentialParents, some last, none, []⟩
        hd.parents rfl rfl hdb (fun source ↦ ?_) fun other hother ↦ hr.unique hother ▸ hcontinues
      · refine ⟨_, ?_, hnext.1, Or.inl ⟨r, hr, hcontinues, hnext.2⟩⟩
        rw [visitSpan_of_not_continues hvisible hdb hsource hcontinued
          (maybeStoreProblem_of_endsAt hd.parents hr hsource hspans), hspans, hlast, ← hstarted]
        rfl
      · rw [Option.some.injEq]
        exact ⟨fun h ↦ h ▸ husable, fun h ↦ husable.unique h⟩
  · have hold : ∀ r : Run, r.EndsAt event seen → ¬ r.Continues span :=
      fun r hr ↦ absurd hr (hnone r)
    have hcloses : ∀ stored, Closes sha1 settings event seen span stored stored :=
      fun stored ↦ Or.inr ⟨fun r hr ↦ absurd hr (hnone r), rfl⟩
    cases hsome : d.sourceSpan with
    | none =>
      have hnew : ∀ source, UsableAt event seen source → ¬ StartsAfter source span :=
        fun source husable ↦ absurd (hsome.symm.trans ((hsource source).mpr husable)) (by simp)
      obtain ⟨htracks, hstored⟩ := tracks_maybeUseAsSource hd.parents hsome hhash hspans hdb
        (not_endsAt_concat hold hnew)
      refine ⟨_, ?_, htracks, hstored ▸ hcloses _⟩
      rw [visitSpan, not_visible_eq, hvisible, hdb', hsome]
      rfl
    | some source =>
      have husable := (hsource source).mp hsome
      have hcontinued := @continuesNPlus1_of_source span d source hsome hhash husable.hasParent.1
      by_cases hstarts : StartsAfter source span
      · rw [if_pos hstarts] at hcontinued
        refine ⟨{ d with nHash := span.hash, nSpans := d.nSpans ++ [span] }, ?_, ?_, hcloses _⟩
        · rw [visitSpan, not_visible_eq, hvisible, hdb', hcontinued,
            show d.sourceSpan.isNone = false by rw [hsome]; rfl]
          rfl
        · rw [hspans]
          exact tracks_begin hd.parents hsome husable hdb hstarts
      · rw [if_neg hstarts] at hcontinued
        have hnew : ∀ source', UsableAt event seen source' → ¬ StartsAfter source' span :=
          fun source' hother ↦ husable.unique hother ▸ hstarts
        obtain ⟨htracks, hstored⟩ := @tracks_maybeUseAsSource event seen span d.resetDetection
          hd.parents rfl rfl rfl hdb (not_endsAt_concat hold hnew)
        refine ⟨d.resetDetection.maybeUseAsSource span, ?_, htracks, hstored ▸ hcloses _⟩
        rw [visitSpan_of_not_continues hvisible hdb hsome hcontinued
          (maybeStoreProblem_of_nil hspans), hspans]
        rfl

theorem exists_visitSpan_of_not_isDb (hd : d.Tracks event seen)
    (hvisible : isVisited span = true) (hdb : ¬ span.IsDb) :
    ∃ d', d.visitSpan sha1 settings event span = some d' ∧ d'.Tracks event (seen ++ [span]) ∧
      Closes sha1 settings event seen span d.storedProblems d'.storedProblems := by
  have hdb' : isDbOp (span.op.getD []) = false := Bool.eq_false_iff.mpr hdb
  have hnone (r : Run) : ¬ r.EndsAt event (seen ++ [span]) := by
    rw [Run.endsAt_concat_iff]
    rintro (⟨-, -, -, hcontinues⟩ | ⟨hrepeats, hspans, -⟩)
    · exact hdb hcontinues.1
    · exact hdb (hrepeats.continues span (hspans ▸ mem_singleton_self span)).1
  have hunusable (source : Span) : ¬ UsableAt event (seen ++ [span]) source :=
    fun h ↦ hdb (usableAt_concat.mp h).2.1
  obtain ⟨stored, hstore, hcloses⟩ : ∃ stored, d.maybeStoreProblem sha1 settings event =
      some { d with storedProblems := stored } ∧
        Closes sha1 settings event seen span d.storedProblems stored := by
    rcases hd.state with ⟨r, hr, hsource, -, hspans⟩ | ⟨hall, -, hspans, -⟩
    · exact ⟨_, maybeStoreProblem_of_endsAt hd.parents hr hsource hspans,
        Or.inl ⟨r, hr, fun h ↦ hdb h.1, rfl⟩⟩
    · exact ⟨d.storedProblems, maybeStoreProblem_of_nil hspans,
        Or.inr ⟨fun r hr ↦ absurd hr (hall r), rfl⟩⟩
  rw [visitSpan, not_visible_eq, hvisible, hdb', hstore]
  have hconcat := parentsAfter_concat event seen span
  rw [← hd.parents] at hconcat
  by_cases hparent : truthy span.parentSpanId = true
  · rw [if_pos ⟨hdb, hparent⟩] at hconcat
    rw [hparent]
    exact ⟨_, rfl, ⟨hconcat.symm, Or.inr ⟨hnone, rfl, rfl, fun source ↦
      iff_of_false (by simp [resetDetection]) (hunusable source)⟩⟩, hcloses⟩
  · rw [if_neg fun h ↦ hparent h.2] at hconcat
    rw [Bool.eq_false_iff.mpr hparent]
    exact ⟨_, rfl, ⟨hconcat.symm, Or.inr ⟨hnone, rfl, rfl, fun source ↦
      iff_of_false (by simp [resetDetection]) (hunusable source)⟩⟩, hcloses⟩

end Detector

/-! ### All spans -/

/-- The runs that have ended, in their order. -/
structure Records (event : Event) (seen : List Span) (runs : List Run) : Prop where
  mem_iff : ∀ r, r ∈ runs ↔ r.EndedIn event seen
  increasing : runs.Pairwise fun r r' ↦ r.before.length < r'.before.length

theorem exists_records {runs : List Run} (hruns : Records event seen runs)
    {stored stored' : List (Text × PerformanceProblem)}
    (hstored : stored = runs.foldl (Run.store sha1 settings event) [])
    (h : Closes sha1 settings event seen span stored stored') :
    ∃ runs', Records event (seen ++ [span]) runs' ∧
      stored' = runs'.foldl (Run.store sha1 settings event) [] := by
  rcases h with ⟨r, hr, hcontinues, rfl⟩ | ⟨hall, rfl⟩
  · refine ⟨runs ++ [r], ⟨fun other ↦ ?_, ?_⟩, ?_⟩
    · rw [mem_append, mem_singleton, hruns.mem_iff, Run.endedIn_concat_iff]
      refine or_congr_right ⟨fun h ↦ h ▸ ⟨hr, hcontinues⟩, fun h ↦ h.1.unique hr⟩
    · refine pairwise_append.mpr ⟨hruns.increasing, pairwise_singleton _ _, ?_⟩
      intro other hother last hlast
      rw [mem_singleton.mp hlast]
      exact ((hruns.mem_iff other).mp hother).lt hr
    · rw [foldl_append, ← hstored]
      rfl
  · refine ⟨runs, ⟨fun other ↦ ?_, hruns.increasing⟩, hstored⟩
    rw [hruns.mem_iff, Run.endedIn_concat_iff]
    exact (or_iff_left fun h ↦ h.2 (hall other h.1)).symm

theorem tracks_init (event : Event) : (Detector.init event).Tracks event [] :=
  ⟨rfl, Or.inr ⟨fun r hr ↦ absurd hr.eq (by simp), rfl, rfl, fun source ↦
    iff_of_false (by simp [Detector.init]) fun ⟨before, heq, _⟩ ↦ absurd heq (by simp)⟩⟩

theorem exists_visited (sha1 : Text → Text) (settings : Settings) (event : Event)
    (spans : List Span) :
    ∃ d runs, spans.foldlM (Detector.visitSpan sha1 settings event) (Detector.init event) = some d ∧
      d.Tracks event (spans.filter isVisited) ∧
      Records event (spans.filter isVisited) runs ∧
      d.storedProblems = runs.foldl (Run.store sha1 settings event) [] := by
  induction spans using reverseRecOn with
  | nil =>
    refine ⟨Detector.init event, [], rfl, tracks_init event,
      ⟨fun r ↦ iff_of_false not_mem_nil fun h ↦ ?_, List.Pairwise.nil⟩, rfl⟩
    obtain ⟨next, after, heq, -⟩ := h.ended
    exact absurd heq (by simp)
  | append_singleton spans span ih =>
    obtain ⟨d, runs, hvisited, htracks, hruns, hstored⟩ := ih
    have hlast : (spans ++ [span]).foldlM (Detector.visitSpan sha1 settings event)
        (Detector.init event) = d.visitSpan sha1 settings event span := by
      rw [foldlM_append, hvisited]
      exact bind_pure (m := Option) _
    rw [hlast, filter_append]
    by_cases hvisible : isVisited span = true
    · rw [filter_cons_of_pos hvisible]
      obtain ⟨d', hvisit, htracks', hcloses⟩ : ∃ d',
          d.visitSpan sha1 settings event span = some d' ∧
            d'.Tracks event (spans.filter isVisited ++ [span]) ∧
            Closes sha1 settings event (spans.filter isVisited) span d.storedProblems
              d'.storedProblems := by
        by_cases hdb : span.IsDb
        · exact Detector.exists_visitSpan_of_isDb htracks hvisible hdb
        · exact Detector.exists_visitSpan_of_not_isDb htracks hvisible hdb
      obtain ⟨runs', hruns', hstored'⟩ := exists_records hruns hstored hcloses
      exact ⟨d', runs', hvisit, htracks', hruns', hstored'⟩
    · have hskip : d.visitSpan sha1 settings event span = some d := by
        rw [Detector.visitSpan, Detector.not_visible_eq, Bool.eq_false_iff.mpr hvisible]
        rfl
      rw [filter_cons_of_neg hvisible, filter_nil, append_nil]
      exact ⟨d, runs, hskip, htracks, hruns, hstored⟩

theorem exists_runs (sha1 : Text → Text) (settings : Settings) (event : Event) :
    ∃ runs : List Run,
      (∀ r, r ∈ runs ↔ r.Repeats event ∧ r.MaximalIn (visited event)) ∧
      runs.Pairwise (fun r r' ↦ r.before.length < r'.before.length) ∧
      detect sha1 settings event = some (runs.foldl (Run.store sha1 settings event) []) := by
  obtain ⟨d, runs, hvisited, htracks, hruns, hstored⟩ :=
    exists_visited sha1 settings event event.spans
  have hmaximal (r : Run) : r.Repeats event ∧ r.MaximalIn (visited event) ↔
      r ∈ runs ∨ r.EndsAt event (visited event) := by
    rw [hruns.mem_iff]
    constructor
    · exact fun h ↦ (Run.maximalIn_iff h.1).mp h.2
    · exact fun h ↦ have hrepeats := h.elim Run.EndedIn.repeats Run.EndsAt.repeats
        ⟨hrepeats, (Run.maximalIn_iff hrepeats).mpr h⟩
  rw [detect, hvisited]
  show ∃ runs, _ ∧ _ ∧ (do
    let complete ← d.maybeStoreProblem sha1 settings event
    return complete.storedProblems) = _
  rcases htracks.state with ⟨r, hr, hsource, -, hspans⟩ | ⟨hnone, -, hspans, -⟩
  · rw [Detector.maybeStoreProblem_of_endsAt htracks.parents hr hsource hspans]
    refine ⟨runs ++ [r], fun other ↦ ?_, ?_, ?_⟩
    · rw [hmaximal, mem_append, mem_singleton]
      exact or_congr_right ⟨fun h ↦ h ▸ hr, fun h ↦ h.unique hr⟩
    · refine pairwise_append.mpr ⟨hruns.increasing, pairwise_singleton _ _, ?_⟩
      intro other hother last hlast
      rw [mem_singleton.mp hlast]
      exact ((hruns.mem_iff other).mp hother).lt hr
    · rw [foldl_append, ← hstored]
      rfl
  · rw [Detector.maybeStoreProblem_of_nil hspans]
    refine ⟨runs, fun other ↦ ?_, hruns.increasing, ?_⟩
    · rw [hmaximal]
      exact (or_iff_left (hnone other)).symm
    · rw [← hstored]
      rfl

/-! ### The first run with a fingerprint -/

/-- The fingerprint of the problem of a run. -/
def Run.fingerprint (sha1 : Text → Text) (event : Event) (r : Run) : Option Text :=
  (r.problem sha1 event).map PerformanceProblem.fingerprint

theorem Run.entry_eq_some_iff {entry : Text × PerformanceProblem} :
    r.entry sha1 settings event = some entry ↔
      r.Passes settings ∧ r.problem sha1 event = some entry.2 ∧ entry.2.fingerprint = entry.1 := by
  unfold Run.entry
  by_cases hpasses : r.Passes settings
  · rw [if_pos hpasses, Option.map_eq_some_iff]
    constructor
    · rintro ⟨problem, hproblem, rfl⟩
      exact ⟨hpasses, hproblem, rfl⟩
    · rintro ⟨-, hproblem, hfingerprint⟩
      exact ⟨entry.2, hproblem, Prod.ext hfingerprint rfl⟩
  · rw [if_neg hpasses]
    exact iff_of_false (by simp) fun h ↦ hpasses h.1

theorem getItem_foldl_store (runs : List Run) (stored : List (Text × PerformanceProblem))
    (fingerprint : Text) :
    getItem (runs.foldl (Run.store sha1 settings event) stored) fingerprint =
      (getItem stored fingerprint).or
        (getItem (runs.filterMap (Run.entry sha1 settings event)) fingerprint) := by
  induction runs generalizing stored with
  | nil => simp
  | cons r runs ih =>
    rw [foldl_cons, ih, filterMap_cons]
    cases hentry : r.entry sha1 settings event with
    | none =>
      rw [Run.store, hentry]
      rfl
    | some entry =>
      rw [Run.store, hentry]
      show (getItem (setDefault stored entry) fingerprint).or _ =
        (getItem stored fingerprint).or (getItem (entry :: _) fingerprint)
      rw [Library.getItem_cons, setDefault]
      by_cases hstored : (getItem stored entry.1).isSome
      · rw [if_pos hstored]
        by_cases hkey : entry.1 = fingerprint
        · obtain ⟨problem, hproblem⟩ := Option.isSome_iff_exists.mp (hkey ▸ hstored)
          rw [hproblem, Option.some_or, Option.some_or]
        · rw [if_neg hkey]
      · rw [if_neg hstored, Library.getItem_setItem]
        by_cases hkey : entry.1 = fingerprint
        · rw [if_pos hkey, if_pos hkey, ← hkey, Option.not_isSome_iff_eq_none.mp hstored]
          rfl
        · rw [if_neg hkey, if_neg hkey]

theorem nodup_keys_foldl_store (runs : List Run) {stored : List (Text × PerformanceProblem)}
    (h : (stored.map Prod.fst).Nodup) :
    ((runs.foldl (Run.store sha1 settings event) stored).map Prod.fst).Nodup := by
  induction runs generalizing stored with
  | nil => exact h
  | cons r runs ih =>
    refine ih ?_
    unfold Run.store
    cases r.entry sha1 settings event with
    | none => exact h
    | some entry =>
      show ((setDefault stored entry).map Prod.fst).Nodup
      unfold setDefault
      split
      next => exact h
      next => exact Library.nodup_keys_setItem h _ _

theorem exists_of_getItem_filterMap {f : Run → Option (Text × PerformanceProblem)}
    {runs : List Run} {key : Text} {problem : PerformanceProblem}
    (h : getItem (runs.filterMap f) key = some problem) :
    ∃ before r after, runs = before ++ r :: after ∧ f r = some (key, problem) ∧
      ∀ other ∈ before, ∀ entry, f other = some entry → entry.1 ≠ key := by
  induction runs with
  | nil => exact absurd h (by simp)
  | cons first runs ih =>
    rw [filterMap_cons] at h
    cases hfirst : f first with
    | none =>
      rw [hfirst] at h
      obtain ⟨before, r, after, rfl, hr, hbefore⟩ := ih h
      refine ⟨first :: before, r, after, rfl, hr, fun other hother entry hentry ↦ ?_⟩
      rcases mem_cons.mp hother with rfl | hmem
      · exact absurd (hfirst.symm.trans hentry) (by simp)
      · exact hbefore other hmem entry hentry
    | some entry =>
      rw [hfirst] at h
      have hcons : (if entry.1 = key then some entry.2 else getItem (runs.filterMap f) key) =
          some problem := (Library.getItem_cons entry _ key).symm.trans h
      by_cases hkey : entry.1 = key
      · rw [if_pos hkey, Option.some.injEq] at hcons
        refine ⟨[], first, runs, rfl, ?_, fun _ hmem ↦ absurd hmem not_mem_nil⟩
        rw [hfirst, ← hkey, ← hcons]
      · rw [if_neg hkey] at hcons
        obtain ⟨before, r, after, rfl, hr, hbefore⟩ := ih hcons
        refine ⟨first :: before, r, after, rfl, hr, fun other hother entry' hentry ↦ ?_⟩
        rcases mem_cons.mp hother with rfl | hmem
        · rw [← Option.some.inj (hfirst.symm.trans hentry)]
          exact hkey
        · exact hbefore other hmem entry' hentry

/-- The fingerprints that are stored are those of the maximal runs that pass the checks, and with
each of them the problem of the first such run, which lists the spans of the run. -/
theorem detects_runs (sha1 : Text → Text) (settings : Settings) (event : Event) :
    ∃ stored, detect sha1 settings event = some stored ∧
      (∀ fingerprint, fingerprint ∈ stored.map Prod.fst ↔ ∃ r : Run,
        r.Detected settings event ∧ r.fingerprint sha1 event = some fingerprint) ∧
      ∀ entry ∈ stored, ∃ r : Run, r.Detected settings event ∧
        r.problem sha1 event = some entry.2 ∧ entry.2.fingerprint = entry.1 ∧
        entry.2.offenderSpanIds = r.spans.map Span.spanId ∧
        ∀ r' : Run, r'.Detected settings event → r'.fingerprint sha1 event = some entry.1 →
          r.before.length ≤ r'.before.length := by
  obtain ⟨runs, hmem, hincreasing, hdetect⟩ := exists_runs sha1 settings event
  have hget (fingerprint : Text) : getItem (runs.foldl (Run.store sha1 settings event) [])
      fingerprint = getItem (runs.filterMap (Run.entry sha1 settings event)) fingerprint := by
    rw [getItem_foldl_store, Library.getItem_nil, Option.none_or]
  have hnodup := @nodup_keys_foldl_store event sha1 settings runs [] nodup_nil
  have hentry {r : Run} (hr : r.Detected settings event) {fingerprint : Text}
      (hfingerprint : r.fingerprint sha1 event = some fingerprint) :
      ∃ problem, r.entry sha1 settings event = some (fingerprint, problem) := by
    obtain ⟨problem, hproblem, hfp⟩ := Option.map_eq_some_iff.mp hfingerprint
    exact ⟨problem, Run.entry_eq_some_iff.mpr ⟨hr.passes, hproblem, hfp⟩⟩
  have hfirst : ∀ entry ∈ runs.foldl (Run.store sha1 settings event) [], ∃ r : Run,
      r.Detected settings event ∧ r.problem sha1 event = some entry.2 ∧
        entry.2.fingerprint = entry.1 ∧ entry.2.offenderSpanIds = r.spans.map Span.spanId ∧
        ∀ r' : Run, r'.Detected settings event → r'.fingerprint sha1 event = some entry.1 →
          r.before.length ≤ r'.before.length := by
    intro entry hstored
    have hitem := (Library.getItem_eq_some_iff hnodup).mpr hstored
    rw [hget] at hitem
    obtain ⟨before, r, after, hruns, hr, hbefore⟩ := exists_of_getItem_filterMap hitem
    obtain ⟨hpasses, hproblem, hfingerprint⟩ := Run.entry_eq_some_iff.mp hr
    obtain ⟨hrepeats, hmaximal⟩ := (hmem r).mp (by rw [hruns]; simp)
    refine ⟨r, ⟨hrepeats, hmaximal, hpasses⟩, hproblem, hfingerprint, ?_, fun r' hr' hsame ↦ ?_⟩
    · obtain ⟨first, rest, hspans⟩ := exists_cons_of_ne_nil hrepeats.ne_nil
      obtain ⟨parent, -, hparent⟩ := @Run.Repeats.exists_problem _ _ sha1 hrepeats _ _ hspans
      rw [← Option.some.inj (hparent.symm.trans hproblem)]
      rfl
    · have hmem' : r' ∈ before ++ r :: after := hruns ▸ (hmem r').mpr ⟨hr'.repeats, hr'.maximal⟩
      rw [hruns] at hincreasing
      rcases mem_append.mp hmem' with hbefore' | hafter
      · obtain ⟨problem, hproblem'⟩ := hentry hr' hsame
        exact hbefore r' hbefore' _ hproblem' rfl |>.elim
      · rcases mem_cons.mp hafter with rfl | hafter
        · exact le_rfl
        · have hcons := (pairwise_append.mp hincreasing).2.1
          exact ((pairwise_cons.mp hcons).1 r' hafter).le
  refine ⟨_, hdetect, fun fingerprint ↦ ⟨fun hkey ↦ ?_, ?_⟩, hfirst⟩
  · obtain ⟨entry, hstored, rfl⟩ := mem_map.mp hkey
    obtain ⟨r, hr, hproblem, hfingerprint, -⟩ := hfirst entry hstored
    refine ⟨r, hr, ?_⟩
    rw [Run.fingerprint, hproblem, Option.map_some, hfingerprint]
  · rintro ⟨r, hr, hfingerprint⟩
    obtain ⟨problem, hproblem⟩ := hentry hr hfingerprint
    have hitem : (fingerprint, problem) ∈ runs.filterMap (Run.entry sha1 settings event) :=
      mem_filterMap.mpr ⟨r, (hmem r).mpr ⟨hr.repeats, hr.maximal⟩, hproblem⟩
    cases hstored : getItem (runs.foldl (Run.store sha1 settings event) []) fingerprint with
    | some other => exact mem_map.mpr ⟨_, Library.mem_of_getItem hstored, rfl⟩
    | none =>
      rw [hget, getItem, Option.map_eq_none_iff, find?_eq_none] at hstored
      exact absurd (decide_eq_true rfl) (hstored _ hitem)

end Sentry.PerformanceIssues
