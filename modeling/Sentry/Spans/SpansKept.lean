import Sentry.Spans.RedisSpansBuffer

/-!
# What the span buffer keeps

A segment with spans has its key in a bucket, or with the consumer that pruned it until the segment
is deleted. So no segment is forgotten as long as the prunes of a bucket do not overlap, and no span
is lost as long as none is pushed between a read of its segment and the deletion (`kept`).
-/

namespace Sentry.Spans

open Library List Function State

variable {Span : Type*}

namespace State

variable {s : State Span}

def ReadBefore (s : State Span) : Prop :=
  ∀ r, ∀ segment ∈ (s.readers r).pending, ∀ span ∈ s.segments segment, (segment, span) ∈ s.read

/-- No span is lost, and no deletion will lose one. -/
structure SpansSafe (s : State Span) : Prop where
  kept : s.SpansKept
  readBefore : s.ReadBefore

theorem SpansSafe.setReader (h : s.SpansSafe) {r : ℕ} {reader : Reader Span}
    (hpending : reader.pending ⊆ (s.readers r).pending) : (s.setReader r reader).SpansSafe where
  kept := h.kept
  readBefore := (forall_update_iff s.readers fun _ reader ↦
    ∀ segment ∈ reader.pending, ∀ span ∈ s.segments segment, (segment, span) ∈ s.read).mpr
      ⟨fun segment hsegment ↦ h.readBefore r segment (hpending hsegment), fun r' _ ↦ h.readBefore r'⟩

theorem SpansSafe.setWriter (h : s.SpansSafe) (w : ℕ) (writer : Writer Span) :
    (s.setWriter w writer).SpansSafe :=
  ⟨h.kept, h.readBefore⟩

variable {segment : Segment}

theorem SpansSafe.rpush (h : s.SpansSafe) (hapart : ∀ r, segment ∉ (s.readers r).pending)
    (spans : List Span) : (s.rpush segment spans).SpansSafe where
  kept other span hpushed := by
    show (other, span) ∈ s.read ∨ span ∈ Function.update s.segments segment _ other
    rcases mem_append.mp hpushed with hold | hnew
    · refine (h.kept other span hold).imp id fun hspan ↦ ?_
      by_cases ho : other = segment
      · subst ho
        rw [update_self]
        exact mem_append_left _ hspan
      · rwa [update_of_ne ho]
    · obtain ⟨pushed, hmem, heq⟩ := List.mem_map.mp hnew
      obtain ⟨rfl, rfl⟩ := Prod.mk.inj heq
      rw [update_self]
      exact Or.inr (mem_append_right _ hmem)
  readBefore r other hother span hspan := by
    have hne : other ≠ segment := by
      rintro rfl
      exact hapart r hother
    have hold : span ∈ Function.update s.segments segment _ other := hspan
    rw [update_of_ne hne] at hold
    exact h.readBefore r other hother span hold

theorem spansSafe_write (h : s.SpansSafe) {w : ℕ} (hapart : s.PushesApart (.write w)) :
    (s.write w).SpansSafe := by
  unfold write
  split
  case h_1 next todo results latest hwriter =>
    exact (h.rpush (hapart next todo results latest hwriter) next.spans).setWriter w _
  case h_2 => exact h.setWriter w _
  case h_3 partition timestamp latest contexts _ =>
    have hgetset : (s.getset partition timestamp).SpansSafe := ⟨h.kept, h.readBefore⟩
    exact hgetset.setWriter w _
  case h_4 => exact h.setWriter w _
  case h_5 next numTotal results contexts _ =>
    split
    · have hregister : (s.register next.key.partition next.firstSeen
          (getSegmentKey next.key)).SpansSafe := ⟨h.kept, h.readBefore⟩
      exact hregister.setWriter w _
    · exact h.setWriter w _
  case h_6 => exact h.setWriter w _
  case h_7 => exact h

theorem spansSafe_readNext (h : s.SpansSafe) (r : ℕ) : (s.readNext r).SpansSafe := by
  unfold readNext
  split
  case h_1 segment todo done values hreader =>
    refine ⟨fun other span hpushed ↦ ?_, (forall_update_iff s.readers fun _ reader ↦
      ∀ other ∈ reader.pending, ∀ span ∈ s.segments other, (other, span) ∈ s.read ++ _).mpr
        ⟨fun other hother span hspan ↦ ?_, fun r' _ other hother span hspan ↦ ?_⟩⟩
    · exact (h.kept other span hpushed).imp (mem_append_left _) id
    · rcases mem_append.mp hother with hold | hnew
      · have hdone : other ∈ (s.readers r).pending := by rwa [hreader]
        exact mem_append_left _ (h.readBefore r other hdone span hspan)
      · obtain rfl := mem_singleton.mp hnew
        exact mem_append_right _ (mem_map_of_mem hspan)
    · exact mem_append_left _ (h.readBefore r' other hother span hspan)
  case h_2 hreader =>
    refine h.setReader ?_
    rw [hreader]
    exact fun _ h ↦ h
  case h_3 segment todo values hreader =>
    have hread : ∀ span ∈ s.segments segment, (segment, span) ∈ s.read :=
      h.readBefore r segment (by rw [hreader]; exact mem_cons_self)
    have hdelete : { s with
        segments := Function.update s.segments segment []
        handed := s.handed.filter (· ≠ segment) }.SpansSafe := by
      have hsub : ∀ other span, span ∈ Function.update s.segments segment [] other →
          span ∈ s.segments other := by
        intro other span hspan
        rw [update_apply] at hspan
        by_cases ho : other = segment
        · simp [ho] at hspan
        · rwa [if_neg ho] at hspan
      refine ⟨fun other span hpushed ↦ ?_, fun r' other hother span hspan ↦ ?_⟩
      · show (other, span) ∈ s.read ∨ span ∈ Function.update s.segments segment [] other
        rcases h.kept other span hpushed with hold | hspan
        · exact Or.inl hold
        · by_cases ho : other = segment
          · subst ho
            exact Or.inl (hread span hspan)
          · rw [update_of_ne ho]
            exact Or.inr hspan
      · exact h.readBefore r' other hother span (hsub other span hspan)
    refine hdelete.setReader ?_
    rw [hreader]
    exact subset_cons_self _ _
  case h_4 => exact h.setReader (nil_subset _)
  case h_5 => exact h

variable {bufferWindow : ℤ}

theorem spansSafe_step (h : s.SpansSafe) {event : Event Span}
    (hapart : s.PushesApart event) : (s.step bufferWindow event).SpansSafe := by
  cases event with
  | batchWrite w writes latest =>
    show (s.batchWrite w writes latest).SpansSafe
    unfold batchWrite
    split
    · exact h.setWriter w _
    · exact h
  | write w => exact spansSafe_write h hapart
  | readAndExpire r segments =>
    show (s.readAndExpire r segments).SpansSafe
    unfold readAndExpire
    split
    · exact h.setReader (nil_subset _)
    · exact h
  | read r => exact spansSafe_readNext h r
  | lrange p partition now =>
    show (s.lrange bufferWindow p partition now).SpansSafe
    unfold lrange
    split
    · exact ⟨h.kept, h.readBefore⟩
    · exact h
  | ltrim p =>
    show (s.ltrim p).SpansSafe
    unfold ltrim
    split
    · exact ⟨h.kept, h.readBefore⟩
    · exact h

def Known (s : State Span) (segment : Segment) : Prop :=
  (∃ partition, segment ∈ (s.buckets partition).map (·.2)) ∨ segment ∈ s.handed ∨
    ∃ w, segment ∈ (s.writers w).toRegister

/-- Every segment with spans is known, and what a consumer will trim off a bucket is what it has
found there. -/
structure SegmentsSafe (s : State Span) : Prop where
  known : ∀ segment, s.segments segment ≠ [] → s.Known segment
  found : ∀ p partition segments, s.pruners p = .trimming partition segments →
    segments <+: (s.buckets partition).map (·.2)
  alone : ∀ p p' partition segments segments', s.pruners p = .trimming partition segments →
    s.pruners p' = .trimming partition segments' → p = p'

theorem Known.setWriter (h : s.Known segment) {w : ℕ} {writer : Writer Span}
    (hregister : segment ∈ (s.writers w).toRegister → segment ∈ writer.toRegister ∨
      ∃ partition, segment ∈ (s.buckets partition).map (·.2)) :
    (s.setWriter w writer).Known segment := by
  rcases h with hbucket | hhanded | ⟨w', hw'⟩
  · exact Or.inl hbucket
  · exact Or.inr (Or.inl hhanded)
  · have hupdate : (∃ w', segment ∈ ((s.setWriter w writer).writers w').toRegister) ↔ _ :=
      exists_update_iff s.writers fun _ writer ↦ segment ∈ writer.toRegister
    by_cases hw : w' = w
    · exact (hregister (hw ▸ hw')).elim (fun hnext ↦ Or.inr (Or.inr (hupdate.mpr (Or.inl hnext))))
        Or.inl
    · exact Or.inr (Or.inr (hupdate.mpr (Or.inr ⟨w', hw, hw'⟩)))

theorem SegmentsSafe.setWriter (h : s.SegmentsSafe) {w : ℕ} {writer : Writer Span}
    (hregister : ∀ segment ∈ (s.writers w).toRegister, segment ∈ writer.toRegister ∨
      ∃ partition, segment ∈ (s.buckets partition).map (·.2)) :
    (s.setWriter w writer).SegmentsSafe :=
  ⟨fun segment hne ↦ (h.known segment hne).setWriter (hregister segment), h.found, h.alone⟩

theorem SegmentsSafe.setReader (h : s.SegmentsSafe) (r : ℕ) (reader : Reader Span) :
    (s.setReader r reader).SegmentsSafe :=
  ⟨h.known, h.found, h.alone⟩

theorem mem_toRegister_append {results : List (Write Span × ℕ)} {next : Write Span} {numTotal : ℕ}
    {todo : List (Write Span)} {latest : List (ℕ × ℤ)}
    (h : segment ∈ (Writer.pushing (next :: todo) results latest).toRegister) :
    segment ∈ (Writer.pushing todo (results ++ [(next, numTotal)]) latest).toRegister := by
  simp only [Writer.toRegister, Writer.results, filter_append, map_append] at h ⊢
  exact mem_append_left _ h

theorem segmentsSafe_push (h : s.SegmentsSafe) {w : ℕ} {next : Write Span}
    {todo : List (Write Span)} {results : List (Write Span × ℕ)} {latest : List (ℕ × ℤ)}
    (hwriter : s.writers w = .pushing (next :: todo) results latest) :
    ((s.rpush (getSegmentKey next.key) next.spans).setWriter w (.pushing todo
      (results ++ [(next, (s.segments (getSegmentKey next.key)).length + next.spans.length)])
      latest)).SegmentsSafe := by
  set writer : Writer Span := .pushing todo
    (results ++ [(next, (s.segments (getSegmentKey next.key)).length + next.spans.length)]) latest
    with hnext
  refine ⟨fun segment hne ↦ ?_, h.found, h.alone⟩
  by_cases hold : s.segments segment = []
  · have hne' : Function.update s.segments (getSegmentKey next.key)
        (s.segments (getSegmentKey next.key) ++ s.numbered next.spans) segment ≠ [] := hne
    have hsegment : segment = getSegmentKey next.key := by
      by_contra ho
      rw [update_of_ne ho] at hne'
      exact hne' hold
    refine Or.inr (Or.inr ⟨w, ?_⟩)
    show segment ∈ (Function.update s.writers w writer w).toRegister
    rw [update_self, hnext]
    subst hsegment
    simp [Writer.toRegister, Writer.results, filter_append, hold]
  · have hknown : (s.rpush (getSegmentKey next.key) next.spans).Known segment :=
      h.known segment hold
    exact hknown.setWriter fun hw ↦
      Or.inl (mem_toRegister_append (show segment ∈ (Writer.toRegister _) from hwriter ▸ hw))

theorem SegmentsSafe.register (h : s.SegmentsSafe) (partition : ℕ) (timestamp : ℤ)
    (segment : Segment) : (s.register partition timestamp segment).SegmentsSafe := by
  have hgrows : ∀ i, (s.buckets i).map (·.2) <+:
      ((s.register partition timestamp segment).buckets i).map (·.2) := by
    intro i
    show _ <+: (Function.update s.buckets partition _ i).map (·.2)
    by_cases hi : i = partition
    · subst hi
      rw [update_self, map_append]
      exact prefix_append _ _
    · rw [update_of_ne hi]
  refine ⟨fun other hne ↦ ?_, fun p i segments hp ↦ (h.found p i segments hp).trans (hgrows i),
    h.alone⟩
  rcases h.known other hne with ⟨i, hi⟩ | hhanded | hwriter
  · exact Or.inl ⟨i, (hgrows i).subset hi⟩
  · exact Or.inr (Or.inl hhanded)
  · exact Or.inr (Or.inr hwriter)

theorem mem_bucket_register (partition : ℕ) (timestamp : ℤ) (segment : Segment) :
    segment ∈ ((s.register partition timestamp segment).buckets partition).map (·.2) := by
  show segment ∈ (Function.update s.buckets partition _ partition).map (·.2)
  rw [update_self, map_append]
  exact mem_append_right _ mem_cons_self

theorem segmentsSafe_write (h : s.SegmentsSafe) (w : ℕ) : (s.write w).SegmentsSafe := by
  unfold write
  split
  case h_1 next todo results latest hwriter => exact segmentsSafe_push h hwriter
  case h_2 results latest hwriter =>
    refine h.setWriter fun segment hsegment ↦ Or.inl ?_
    rwa [hwriter] at hsegment
  case h_3 results partition timestamp latest contexts hwriter =>
    have hgetset : (s.getset partition timestamp).SegmentsSafe := ⟨h.known, h.found, h.alone⟩
    refine hgetset.setWriter fun segment hsegment ↦ Or.inl ?_
    have hold : segment ∈ (s.writers w).toRegister := hsegment
    rwa [hwriter] at hold
  case h_4 results contexts hwriter =>
    refine h.setWriter fun segment hsegment ↦ Or.inl ?_
    rwa [hwriter] at hsegment
  case h_5 next numTotal results contexts hwriter =>
    by_cases hnew : next.spans.length = numTotal
    · rw [if_pos hnew]
      refine (h.register _ _ _).setWriter fun segment hsegment ↦ ?_
      have hold : segment ∈ (s.writers w).toRegister := hsegment
      rw [hwriter] at hold
      simp only [Writer.toRegister, Writer.results, filter_cons, hnew, decide_true, if_true,
        map_cons, mem_cons] at hold
      rcases hold with rfl | hrest
      · exact Or.inr ⟨_, mem_bucket_register _ _ _⟩
      · exact Or.inl hrest
    · rw [if_neg hnew]
      refine h.setWriter fun segment hsegment ↦ Or.inl ?_
      rw [hwriter] at hsegment
      simpa [Writer.toRegister, Writer.results, hnew] using hsegment
  case h_6 contexts hwriter =>
    refine h.setWriter fun segment hsegment ↦ ?_
    rw [hwriter] at hsegment
    simp [Writer.toRegister, Writer.results] at hsegment
  case h_7 => exact h

theorem segmentsSafe_readNext (h : s.SegmentsSafe) (r : ℕ) : (s.readNext r).SegmentsSafe := by
  unfold readNext
  split
  case h_1 => exact ⟨h.known, h.found, h.alone⟩
  case h_2 => exact h.setReader r _
  case h_3 segment todo values _ =>
    refine ⟨fun other hne ↦ ?_, h.found, h.alone⟩
    have hne' : Function.update s.segments segment [] other ≠ [] := hne
    by_cases ho : other = segment
    · simp [ho] at hne'
    · rw [update_of_ne ho] at hne'
      rcases h.known other hne' with hbucket | hhanded | hwriter
      · exact Or.inl hbucket
      · exact Or.inr (Or.inl (mem_filter.mpr ⟨hhanded, by simpa using ho⟩))
      · exact Or.inr (Or.inr hwriter)
  case h_4 => exact h.setReader r _
  case h_5 => exact h

theorem segmentsSafe_lrange (h : s.SegmentsSafe) {p partition : ℕ} {now : ℤ}
    (hapart : s.PrunesApart (.lrange p partition now)) :
    (s.lrange bufferWindow p partition now).SegmentsSafe := by
  unfold lrange
  split
  case h_1 =>
    set segments :=
      ((s.buckets partition).takeWhile fun entry ↦ ¬ now - entry.1 < bufferWindow).map (·.2)
      with hsegments
    have hpruners : ∀ p' i found,
        (s.setPruner p (.trimming partition segments)).pruners p' = .trimming i found →
          (p' = p ∧ i = partition ∧ found = segments) ∨ s.pruners p' = .trimming i found := by
      intro p' i found heq
      have hupdate : Function.update s.pruners p (.trimming partition segments) p' =
          .trimming i found := heq
      by_cases hp : p' = p
      · rw [hp, update_self, Pruner.trimming.injEq] at hupdate
        exact Or.inl ⟨hp, hupdate.1.symm, hupdate.2.symm⟩
      · rw [update_of_ne hp] at hupdate
        exact Or.inr hupdate
    refine ⟨h.known, fun p' i found hp' ↦ ?_, fun p' p'' i found found' hp' hp'' ↦ ?_⟩
    · rcases hpruners p' i found hp' with ⟨-, rfl, rfl⟩ | hold
      · exact ( takeWhile_prefix _).map _
      · exact h.found p' i found hold
    · rcases hpruners p' i found hp' with ⟨rfl, rfl, -⟩ | hold
      · rcases hpruners p'' i found' hp'' with ⟨rfl, -, -⟩ | hold''
        · rfl
        · exact absurd hold'' (hapart p'' found')
      · rcases hpruners p'' i found' hp'' with ⟨rfl, rfl, -⟩ | hold''
        · exact absurd hold (hapart p' found)
        · exact h.alone p' p'' i found found' hold hold''
  case h_2 => exact h

theorem segmentsSafe_ltrim (h : s.SegmentsSafe) (p : ℕ) : (s.ltrim p).SegmentsSafe := by
  unfold ltrim
  split
  case h_1 partition segments hpruner =>
    obtain ⟨rest, hrest⟩ := h.found p partition segments hpruner
    have hdrop : ((s.buckets partition).drop segments.length).map (·.2) = rest := by
      rw [map_drop, ← hrest, drop_left]
    have hpruners : ∀ p' i found,
        Function.update s.pruners p (.finished segments) p' = .trimming i found →
          p' ≠ p ∧ s.pruners p' = .trimming i found := by
      intro p' i found heq
      by_cases hp : p' = p
      · simp [hp] at heq
      · rw [update_of_ne hp] at heq
        exact ⟨hp, heq⟩
    refine ⟨fun segment hne ↦ ?_, fun p' i found hp' ↦ ?_, fun p' p'' i found found' hp' hp'' ↦ ?_⟩
    · rcases h.known segment hne with ⟨i, hi⟩ | hhanded | hwriter
      · by_cases hi' : i = partition
        · subst hi'
          rw [← hrest] at hi
          rcases mem_append.mp hi with hpruned | hleft
          · exact Or.inr (Or.inl (mem_append_left _ hpruned))
          · refine Or.inl ⟨i, ?_⟩
            show segment ∈ (Function.update s.buckets i _ i).map (·.2)
            rwa [update_self, hdrop]
        · refine Or.inl ⟨i, ?_⟩
          show segment ∈ (Function.update s.buckets partition _ i).map (·.2)
          rwa [update_of_ne hi']
      · exact Or.inr (Or.inl (mem_append_right _ hhanded))
      · exact Or.inr (Or.inr hwriter)
    · obtain ⟨hne, hold⟩ := hpruners p' i found hp'
      show found <+: (Function.update s.buckets partition _ i).map (·.2)
      by_cases hi : i = partition
      · subst hi
        exact absurd (h.alone p' p i found segments hold hpruner) hne
      · rw [update_of_ne hi]
        exact h.found p' i found hold
    · exact h.alone p' p'' i found found' (hpruners p' i found hp').2 (hpruners p'' i found' hp'').2
  case h_2 => exact h

theorem segmentsSafe_step (h : s.SegmentsSafe) {event : Event Span}
    (hapart : s.PrunesApart event) : (s.step bufferWindow event).SegmentsSafe := by
  cases event with
  | batchWrite w writes latest =>
    show (s.batchWrite w writes latest).SegmentsSafe
    unfold batchWrite
    split
    case h_1 hwriter =>
      refine h.setWriter fun segment hsegment ↦ ?_
      rw [hwriter] at hsegment
      simp [Writer.toRegister, Writer.results] at hsegment
    case h_2 => exact h
  | write w => exact segmentsSafe_write h w
  | readAndExpire r segments =>
    show (s.readAndExpire r segments).SegmentsSafe
    unfold readAndExpire
    split
    · exact h.setReader r _
    · exact h
  | read r => exact segmentsSafe_readNext h r
  | lrange p partition now => exact segmentsSafe_lrange h hapart
  | ltrim p => exact segmentsSafe_ltrim h p

theorem mem_segments_of_mem_toRegister {writer : Writer Span}
    (h : segment ∈ writer.toRegister) : segment ∈ writer.segments := by
  obtain ⟨result, hresult, rfl⟩ := List.mem_map.mp h
  have hmem := mem_of_mem_filter hresult
  cases writer with
  | pushing todo results latest =>
    exact mem_append_right _ (mem_map_of_mem hmem)
  | stamping | registering => exact mem_map_of_mem hmem
  | idle | finished => simp [Writer.results] at hmem

theorem SegmentsSafe.segmentsKept (h : s.SegmentsSafe) : s.SegmentsKept := by
  intro segment hne hwriters
  rcases h.known segment hne with hbucket | hhanded | ⟨w, hw⟩
  · exact Or.inl hbucket
  · exact Or.inr hhanded
  · exact absurd (mem_segments_of_mem_toRegister hw) (hwriters w)

end State

/-- In a run without a push between a read of a segment and its deletion, every pushed span was read
or is still in its list; in a run without overlapping prunes of a bucket, every segment with spans
and no writer in progress is in a bucket, or with a consumer that has pruned it. -/
theorem kept (bufferWindow : ℤ) (events : List (Event Span)) :
    ((spansBuffer Span bufferWindow).EveryStep State.PushesApart
        (spansBuffer Span bufferWindow).init events →
      ((spansBuffer Span bufferWindow).run events).SpansKept) ∧
    ((spansBuffer Span bufferWindow).EveryStep State.PrunesApart
        (spansBuffer Span bufferWindow).init events →
      ((spansBuffer Span bufferWindow).run events).SegmentsKept) := by
  constructor
  · intro hpushes
    have hinit : (spansBuffer Span bufferWindow).init.SpansSafe := by
      refine ⟨fun segment span h ↦ ?_, fun r segment h ↦ ?_⟩
      · simp [spansBuffer] at h
      · simp [spansBuffer, Reader.pending] at h
    exact ((spansBuffer Span bufferWindow).run_invariant_of_everyStep (I := State.SpansSafe) hinit
      (fun s event h ↦ spansSafe_step h) hpushes).kept
  · intro hprunes
    have hinit : (spansBuffer Span bufferWindow).init.SegmentsSafe := by
      refine ⟨fun segment h ↦ ?_, fun p i segments h ↦ ?_, fun p p' i segments segments' h ↦ ?_⟩
      · simp [spansBuffer] at h
      · simp [spansBuffer] at h
      · simp [spansBuffer] at h
    exact ((spansBuffer Span bufferWindow).run_invariant_of_everyStep (I := State.SegmentsSafe)
      hinit (fun s event h ↦ segmentsSafe_step h) hprunes).segmentsKept

/-- A call writes one span, and a consumer prunes its segment. -/
def onePrune : List (Event ℕ) :=
  [.batchWrite 0 [⟨⟨"a", 1, 0⟩, [5], by simp, 0⟩] [(0, 0)], .write 0, .write 0, .write 0, .write 0,
    .write 0, .write 0, .lrange 0 0 200, .ltrim 0]

theorem kept_onePrune : ((spansBuffer ℕ 120).run onePrune).SpansKept ∧
    ((spansBuffer ℕ 120).run onePrune).SegmentsKept := by
  refine ⟨(kept 120 onePrune).1 ?_, (kept 120 onePrune).2 ?_⟩
  · simp [onePrune, State.PushesApart, spansBuffer, step, batchWrite, setWriter,
      write, rpush, getset, register, Reader.pending]
  · simp [onePrune, State.PrunesApart, spansBuffer, step, batchWrite, setWriter,
      write, rpush, getset, register]

theorem run_onePrune : ((spansBuffer ℕ 120).run onePrune).segments ⟨"a", 1⟩ ≠ [] ∧
    (∀ w, (((spansBuffer ℕ 120).run onePrune).writers w).segments = []) ∧
    ∀ partition, ((spansBuffer ℕ 120).run onePrune).buckets partition = [] := by
  simp [Machine.run, onePrune, spansBuffer, step, batchWrite, setWriter, write, rpush, getset,
    register, lrange, ltrim, setPruner, numbered, getSegmentKey]
  intro w
  by_cases hw : w = 0
  all_goals simp [hw, Writer.segments]

/-- Until the consumer reads it, a segment that was pruned is in no bucket. -/
theorem not_bucket :
    ¬ ∀ (bufferWindow : ℤ) (events : List (Event ℕ)),
      ((spansBuffer ℕ bufferWindow).run events).SpansKept ∧
      ∀ segment, ((spansBuffer ℕ bufferWindow).run events).segments segment ≠ [] →
        (∀ w, segment ∉ (((spansBuffer ℕ bufferWindow).run events).writers w).segments) →
        ∃ partition,
          segment ∈ (((spansBuffer ℕ bufferWindow).run events).buckets partition).map (·.2) := by
  intro h
  obtain ⟨hspans, hwriters, hbuckets⟩ := run_onePrune
  obtain ⟨partition, hmem⟩ := (h 120 onePrune).2 ⟨"a", 1⟩ hspans fun w ↦ by simp [hwriters w]
  simp [hbuckets partition] at hmem

end Sentry.Spans
