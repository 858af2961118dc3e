import Sentry.Similarity.IndexContents

/-!
# The index is consistent

In a run in which the window of every command contains the intervals of the records before it
(`InWindow`), an item is a member of a set for an index, a band and a bucket exactly if its hash for
that index has the field. Recording a key and merging it into another one has the contents of
merging the one and recording the other (`consistent_and_merge_record`).
-/

namespace Sentry.Similarity

open List Option
open Library (setItem getItem dictOfItems Occurrence Occurrences total addCounts)

variable {config : IndexConfig}

def Command.intervals : Command config → List ℤ
  | .record timestamp _ _ _ => [currentIndex config timestamp]
  | _ => []

def Command.Sees (interval : ℤ) : Command config → Prop
  | .merge timestamp _ _ _ | .delete timestamp _ _ | .exportData timestamp _ _ =>
    interval ∈ window config timestamp
  | _ => True

/-- What an earlier command has recorded is inside the retention window of a later one. -/
def InWindow (earlier later : Command config) : Prop :=
  ∀ interval ∈ earlier.intervals, later.Sees interval

def ExportedIn (config : IndexConfig) (intervals : List ℤ) (data : ExportedData) : Prop :=
  ∀ occurrence ∈ imported data, occurrence.intervals ≠ [] ∧ occurrence.intervals ⊆ intervals ∧
    ∃ band bucket, 1 ≤ band ∧ band ≤ config.bands ∧
      occurrence.field = packFrequencyCoordinate band bucket

structure IndexInvariant (config : IndexConfig) (intervals : List ℤ) (s : IndexState) : Prop where
  wellFormed : WellFormed config s.store
  members : MembersIn config intervals s.store
  exported : ∀ data ∈ s.exported, ExportedIn config intervals data

variable {s : Store} {intervals : List ℤ} {timestamp : ℤ} {scope : Label}

theorem MembersIn.mono {intervals' : List ℤ} (hs : MembersIn config intervals s)
    (h : intervals ⊆ intervals') : MembersIn config intervals' s :=
  fun place item field interval hmember ↦ h (hs place item field interval hmember)

variable {place : Label × Label}

theorem MembersIn.add {s' : Store} {key : Label}
    {occurrences : List (Occurrence (List Char) ℤ)} (hs : MembersIn config intervals s)
    (hcontents : contents config s' = (contents config s).add place key occurrences)
    (h : ∀ occurrence ∈ occurrences, occurrence.intervals ⊆ intervals) :
    MembersIn config intervals s' := by
  intro place' item field interval hmember
  rw [hcontents] at hmember
  rcases hmember with hold | ⟨-, -, occurrence, hoccurrence, -, hinterval⟩
  · exact hs place' item field interval hold
  · exact h occurrence hoccurrence hinterval

variable {source destination : Label}

theorem MembersIn.move {s' : Store} (hs : MembersIn config intervals s)
    (hcontents : contents config s' = (contents config s).move place source destination) :
    MembersIn config intervals s' := by
  intro place' item field interval hmember
  rw [hcontents] at hmember
  have hmember' : if place' = place ∧ item = source then False
      else if place' = place ∧ item = destination then
        (contents config s).member place' item field interval ∨
          (contents config s).member place' source field interval
      else (contents config s).member place' item field interval := hmember
  split at hmember'
  next => exact hmember'.elim
  next =>
    split at hmember'
    next =>
      rcases hmember' with hitem | hsource
      · exact hs place' item field interval hitem
      · exact hs place' source field interval hsource
    next => exact hs place' item field interval hmember'

theorem MembersIn.erase {s' : Store} {key : Label} (hs : MembersIn config intervals s)
    (hcontents : contents config s' = (contents config s).erase place key) :
    MembersIn config intervals s' := by
  intro place' item field interval hmember
  rw [hcontents] at hmember
  have hmember' : if place' = place ∧ item = key then False
      else (contents config s).member place' item field interval := hmember
  split at hmember'
  next => exact hmember'.elim
  next => exact hs place' item field interval hmember'

theorem mem_recorded {signature : Signature config} {occurrence : Occurrence (List Char) ℤ}
    (h : occurrence ∈ signature.recorded timestamp) :
    occurrence.intervals = [currentIndex config timestamp] ∧ ∃ band bucket, 1 ≤ band ∧
      band ≤ config.bands ∧ occurrence.field = packFrequencyCoordinate band bucket := by
  obtain ⟨bucket, hbucket, rfl⟩ := List.mem_map.mp h
  obtain ⟨buckets, hbuckets, hone, -⟩ := mem_eachBucket.mp hbucket
  have hlt := (List.getElem?_eq_some_iff.mp hbuckets).1
  rw [Signature.frequencies, length_map, signature.length_eq] at hlt
  exact ⟨rfl, bucket.1, bucket.2.1, hone, by omega, rfl⟩

theorem contents_record (signatures : List (Signature config)) (timestamp : ℤ) (scope key : Label)
    (s : Store) : contents config (record config timestamp scope key signatures s) =
      (signatures.map fun signature ↦
        ((scope, signature.index), signature.recorded timestamp)).foldl
          (fun o addition ↦ o.add addition.1 key addition.2) (contents config s) := by
  induction signatures generalizing s with
  | nil => rfl
  | cons signature signatures ih =>
    rw [record, foldl_cons, ← record, ih, contents_recordSignature]
    rfl

theorem WellFormed.record (hs : WellFormed config s) (key : Label)
    (signatures : List (Signature config)) :
    WellFormed config (record config timestamp scope key signatures s) := by
  induction signatures generalizing s with
  | nil => exact hs
  | cons signature signatures ih =>
    refine ih (hs.add (hashes_recordSignature s timestamp scope key signature)
      (contents_recordSignature s timestamp scope key signature) (fun occurrence h ↦ ?_)
      fun occurrence h ↦ (mem_recorded h).2)
    rw [(mem_recorded h).1]
    exact cons_ne_nil _ _

theorem MembersIn.record (hs : MembersIn config intervals s) (key : Label)
    (signatures : List (Signature config)) :
    MembersIn config (intervals ++ [currentIndex config timestamp])
      (record config timestamp scope key signatures s) := by
  have hall : ∀ (signatures : List (Signature config)) (s : Store),
      MembersIn config (intervals ++ [currentIndex config timestamp]) s →
      MembersIn config (intervals ++ [currentIndex config timestamp])
        (Similarity.record config timestamp scope key signatures s) := by
    intro signatures
    induction signatures with
    | nil => exact fun _ hs ↦ hs
    | cons signature signatures ih =>
      intro s hs
      refine ih _ (hs.add (contents_recordSignature s timestamp scope key signature) ?_)
      intro occurrence h
      rw [(mem_recorded h).1]
      exact subset_append_right _ _
  exact hall signatures s (hs.mono (subset_append_left _ _))

theorem mergeSources_spec (scope : Label) {destination : Label} {sources : List (Label × Label)}
    (hs : WellFormed config s) (hreaches : MembersIn config (window config timestamp) s)
    (hmembers : MembersIn config intervals s) (hne : ∀ source ∈ sources, source.2 ≠ destination) :
    WellFormed config (mergeSources config timestamp scope destination s sources) ∧
      MembersIn config intervals (mergeSources config timestamp scope destination s sources) ∧
      contents config (mergeSources config timestamp scope destination s sources) =
        sources.foldl (fun o source ↦ o.move (scope, source.1) source.2 destination)
          (contents config s) := by
  induction sources generalizing s with
  | nil => exact ⟨hs, hmembers, rfl⟩
  | cons source sources ih =>
    obtain ⟨hfirst, hrest⟩ := forall_mem_cons.mp hne
    obtain ⟨frequencies, hfrequencies⟩ := exists_getFrequencies hs (scope, source.1) source.2
    have hcontents := contents_mergeSource hs hreaches hfirst hfrequencies
    have hstep : mergeSources config timestamp scope destination s (source :: sources) =
        mergeSources config timestamp scope destination
          (mergeSource config timestamp (scope, source.1) source.2 destination frequencies s)
          sources := by
      obtain ⟨index, key⟩ := source
      rw [mergeSources, hfrequencies]
      simp only [mergeSource, mergeFrequencies]
      split
      all_goals rfl
    rw [hstep, foldl_cons, ← hcontents]
    exact ih (hs.mergeSource hreaches hfirst hfrequencies) (hreaches.move hcontents)
      (hmembers.move hcontents) hrest

theorem delete_spec (scope : Label) (sources : List (Label × Label)) (hs : WellFormed config s)
    (hreaches : MembersIn config (window config timestamp) s)
    (hmembers : MembersIn config intervals s) :
    WellFormed config (delete config timestamp scope s sources) ∧
      MembersIn config intervals (delete config timestamp scope s sources) := by
  induction sources generalizing s with
  | nil => exact ⟨hs, hmembers⟩
  | cons source sources ih =>
    obtain ⟨frequencies, hfrequencies⟩ := exists_getFrequencies hs (scope, source.1) source.2
    have hcontents := contents_deleteSource hs hreaches hfrequencies
    have hstep : delete config timestamp scope s (source :: sources) =
        delete config timestamp scope
          (deleteSource config timestamp (scope, source.1) source.2 frequencies s) sources := by
      obtain ⟨index, key⟩ := source
      rw [delete, hfrequencies]
      rfl
    rw [hstep]
    exact ih (hs.deleteSource hreaches hfrequencies) (hreaches.erase hcontents)
      (hmembers.erase hcontents)

theorem mem_imported_of_exportEntry {source : Label × Label} {data : ExportedData}
    (h : exportEntry config timestamp scope s source = some data) (hs : WellFormed config s)
    (hreaches : MembersIn config (window config timestamp) s)
    {occurrence : Occurrence (List Char) ℤ} (hoccurrence : occurrence ∈ imported data) :
    ((contents config s).frequency (scope, source.1) source.2 occurrence.field).isSome ∧
      ∀ interval, interval ∈ occurrence.intervals ↔
        (contents config s).member (scope, source.1) source.2 occurrence.field interval := by
  rw [exportEntry] at h
  split at h
  next =>
    rw [← Option.some.inj h] at hoccurrence
    exact absurd hoccurrence not_mem_nil
  next =>
    obtain ⟨frequencies, hfrequencies, rfl⟩ := map_eq_some_iff.mp h
    rw [imported, List.mem_map] at hoccurrence
    obtain ⟨bucket, hbucket, rfl⟩ := hoccurrence
    rw [mem_flatMap] at hbucket
    obtain ⟨band, hband, hbucket⟩ := hbucket
    obtain ⟨entry, hentry, rfl⟩ := List.mem_map.mp hbucket
    rw [mem_zipIdx_iff_getElem?, getElem?_map, map_eq_some_iff] at hband
    obtain ⟨buckets, hbuckets, hband⟩ := hband
    rw [← hband] at hentry
    obtain ⟨old, hold, rfl⟩ := List.mem_map.mp hentry
    rw [getElem?_zipIdx, map_eq_some_iff] at hbuckets
    obtain ⟨tables, htables, rfl⟩ := hbuckets
    rw [Nat.zero_add]
    constructor
    · refine (mem_getFrequencies (scope, source.1) hfrequencies hs).mp
        ⟨(band.2 + 1, old), mem_eachBucket.mpr ⟨tables, ?_, ?_, hold⟩, rfl⟩
      · exact htables
      · exact Nat.le_add_left 1 _
    · intro interval
      rw [TimeSeriesSet.exportMember, mem_filter, decide_eq_true_eq]
      exact ⟨fun hmem ↦ hmem.2, fun hmember ↦ ⟨hreaches _ _ _ _ hmember, hmember⟩⟩

theorem mem_of_mapM {α β : Type} {f : α → Option β} {entries : List α} {results : List β}
    (h : entries.mapM f = some results) {result : β} (hresult : result ∈ results) :
    ∃ entry ∈ entries, f entry = some result := by
  induction entries generalizing results with
  | nil =>
    rw [← Option.some.inj h] at hresult
    exact absurd hresult not_mem_nil
  | cons entry entries ih =>
    rw [mapM_cons, bind_eq_bind, bind_eq_some_iff] at h
    obtain ⟨first, hfirst, hrest⟩ := h
    rw [bind_eq_bind, bind_eq_some_iff] at hrest
    obtain ⟨rest, hrest, heq⟩ := hrest
    rw [← Option.some.inj heq, mem_cons] at hresult
    rcases hresult with rfl | hmem
    · exact ⟨entry, mem_cons_self, hfirst⟩
    · obtain ⟨other, hother, hvalue⟩ := ih hrest hmem
      exact ⟨other, mem_cons_of_mem _ hother, hvalue⟩

theorem import_spec (scope : Label) {sources : List (Label × Label × ExportedData)}
    (hs : WellFormed config s) (hmembers : MembersIn config intervals s)
    (hdata : ∀ source ∈ sources, ExportedIn config intervals source.2.2) :
    WellFormed config (sources.foldl (importEntry config scope) s) ∧
      MembersIn config intervals (sources.foldl (importEntry config scope) s) := by
  induction sources generalizing s with
  | nil => exact ⟨hs, hmembers⟩
  | cons source sources ih =>
    obtain ⟨index, key, data⟩ := source
    obtain ⟨hfirst, hrest⟩ := forall_mem_cons.mp hdata
    rw [foldl_cons]
    by_cases hempty : data = []
    · rw [importEntry, if_pos hempty]
      exact ih hs hmembers hrest
    · have hcontents : contents config (importEntry config scope s (index, key, data)) = _ :=
        contents_importEntry s scope index key hempty
      exact ih (hs.add (hashes_importEntry s scope index key hempty) hcontents
        (fun occurrence h ↦ (hfirst occurrence h).1) fun occurrence h ↦ (hfirst occurrence h).2.2)
        (hmembers.add hcontents fun occurrence h ↦ (hfirst occurrence h).2.1) hrest

theorem exportedIn_of_exportEntry {source : Label × Label} {data : ExportedData}
    (h : exportEntry config timestamp scope s source = some data) (hs : WellFormed config s)
    (hreaches : MembersIn config (window config timestamp) s)
    (hmembers : MembersIn config intervals s) : ExportedIn config intervals data := by
  intro occurrence hoccurrence
  obtain ⟨hfrequency, hintervals⟩ := mem_imported_of_exportEntry h hs hreaches hoccurrence
  refine ⟨?_, fun interval hinterval ↦ hmembers _ _ _ _ ((hintervals interval).mp hinterval),
    hs.packed _ _ _ hfrequency⟩
  obtain ⟨interval, hmember⟩ := (hs.consistent _ _ _).mpr hfrequency
  exact ne_nil_of_mem ((hintervals interval).mpr hmember)

theorem IndexInvariant.runCommand {s : IndexState} (hs : IndexInvariant config intervals s)
    {command : Command config} (h : ∀ interval ∈ intervals, command.Sees interval) :
    IndexInvariant config (intervals ++ command.intervals) (runCommand config s command) := by
  have hwindow : ∀ timestamp, (∀ interval ∈ intervals, interval ∈ window config timestamp) →
      MembersIn config (window config timestamp) s.store := fun timestamp h ↦ hs.members.mono h
  cases command with
  | record timestamp scope key signatures =>
    refine ⟨hs.wellFormed.record key signatures, hs.members.record key signatures, ?_⟩
    intro data hdata occurrence hoccurrence
    obtain ⟨hne, hsubset, hpacked⟩ := hs.exported data hdata occurrence hoccurrence
    exact ⟨hne, List.Subset.trans hsubset (subset_append_left _ _), hpacked⟩
  | merge timestamp scope destination sources =>
    rw [show intervals ++ Command.intervals _ = intervals from append_nil _]
    by_cases hsame : ∃ source ∈ sources, source.2 = destination
    · rw [Similarity.runCommand, merge, if_pos hsame]
      exact hs
    · have hspec := mergeSources_spec scope hs.wellFormed (hwindow timestamp h) hs.members
        (fun source hsource heq ↦ hsame ⟨source, hsource, heq⟩)
      rw [Similarity.runCommand, merge, if_neg hsame]
      exact ⟨hspec.1, hspec.2.1, hs.exported⟩
  | delete timestamp scope sources =>
    rw [show intervals ++ Command.intervals _ = intervals from append_nil _]
    have hspec := delete_spec scope sources hs.wellFormed
      (hwindow timestamp h) hs.members
    exact ⟨hspec.1, hspec.2, hs.exported⟩
  | exportData timestamp scope entries =>
    rw [show intervals ++ Command.intervals _ = intervals from append_nil _, Similarity.runCommand]
    split
    next results hresults =>
      refine ⟨hs.wellFormed, hs.members, fun data hdata ↦ ?_⟩
      rcases mem_append.mp hdata with hold | hnew
      · exact hs.exported data hold
      · obtain ⟨entry, -, hentry⟩ := mem_of_mapM hresults hnew
        exact exportedIn_of_exportEntry hentry hs.wellFormed (hwindow timestamp h) hs.members
    next => exact hs
  | importData scope entries =>
    rw [show intervals ++ Command.intervals _ = intervals from append_nil _]
    have hdata : ∀ source ∈ (entries.filterMap fun entry ↦
        s.exported[entry.2.2]?.map fun data ↦ (entry.1, entry.2.1, data)),
        ExportedIn config intervals source.2.2 := by
      intro source hsource
      obtain ⟨entry, -, hentry⟩ := mem_filterMap.mp hsource
      obtain ⟨data, hdata, rfl⟩ := map_eq_some_iff.mp hentry
      exact hs.exported data (mem_of_getElem? hdata)
    have hspec := import_spec scope hs.wellFormed hs.members hdata
    exact ⟨hspec.1, hspec.2, hs.exported⟩

theorem indexInvariant_run {commands : List (Command config)} (h : commands.Pairwise InWindow) :
    IndexInvariant config (commands.flatMap Command.intervals)
      ((minHashIndex config).run commands) := by
  induction commands using reverseRecOn with
  | nil =>
    refine ⟨⟨fun place key field ↦ ?_, fun key ↦ nodup_nil, fun place item field hsome ↦ ?_⟩,
      fun place item field interval hmember ↦ absurd hmember not_mem_nil,
      fun data hdata ↦ absurd hdata not_mem_nil⟩
    · exact ⟨fun ⟨_, hmember⟩ ↦ absurd hmember not_mem_nil,
        fun hsome ↦ absurd hsome Bool.false_ne_true⟩
    · exact absurd hsome Bool.false_ne_true
  | append_singleton commands command ih =>
    obtain ⟨hbefore, -, hlast⟩ := pairwise_append.mp h
    rw [Library.Machine.run_concat, flatMap_append, flatMap_singleton]
    refine (ih hbefore).runCommand fun interval hinterval ↦ ?_
    obtain ⟨earlier, hearlier, hmem⟩ := mem_flatMap.mp hinterval
    exact hlast earlier hearlier command (mem_singleton_self command) interval hmem

/-- The sources of a merge of all indexes of some signatures. -/
def sourcesOf (signatures : List (Signature config)) (source : Label) : List (Label × Label) :=
  signatures.map fun signature ↦ (signature.index, source)

theorem contents_merge (hne : source ≠ destination) (signatures : List (Signature config))
    (hs : WellFormed config s) (hreaches : MembersIn config (window config timestamp) s) :
    contents config (merge config timestamp scope destination (sourcesOf signatures source) s) =
      (signatures.map fun signature ↦ (scope, signature.index)).foldl
        (fun o place ↦ o.move place source destination) (contents config s) := by
  have hsources : ∀ entry ∈ sourcesOf signatures source, entry.2 ≠ destination := by
    intro entry hentry
    obtain ⟨signature, -, rfl⟩ := List.mem_map.mp hentry
    exact hne
  rw [merge, if_neg fun ⟨entry, hentry, heq⟩ ↦ hsources entry hentry heq,
    (mergeSources_spec scope hs hreaches hreaches hsources).2.2, sourcesOf, foldl_map, foldl_map]

theorem contents_merge_record (scope : Label) (hne : source ≠ destination) {recorded merged : ℤ}
    (signatures : List (Signature config)) (hs : WellFormed config s)
    (hreaches : MembersIn config (window config merged) s)
    (hsees : currentIndex config recorded ∈ window config merged) :
    contents config (merge config merged scope destination (sourcesOf signatures source)
      (record config recorded scope source signatures s)) =
    contents config (record config recorded scope destination signatures
      (merge config merged scope destination (sourcesOf signatures source) s)) := by
  have hreaches' : MembersIn config (window config merged)
      (record config recorded scope source signatures s) := by
    refine (hreaches.record source signatures).mono fun interval hinterval ↦ ?_
    rcases mem_append.mp hinterval with hold | hnew
    · exact hold
    · rwa [mem_singleton.mp hnew]
  rw [contents_merge hne signatures (hs.record source signatures) hreaches', contents_record,
    contents_record, contents_merge hne signatures hs hreaches]
  refine Occurrences.foldl_move_foldl_add hne (fun addition haddition ↦ ?_) _
  obtain ⟨signature, hsignature, rfl⟩ := List.mem_map.mp haddition
  exact List.mem_map.mpr ⟨signature, hsignature, rfl⟩

theorem contents_merge_empty (hne : source ≠ destination) (signatures : List (Signature config))
    (hs : WellFormed config s) (hreaches : MembersIn config (window config timestamp) s)
    (hempty : ∀ signature ∈ signatures,
      s.hashes (getFrequencyKey config scope signature.index source) = []) :
    contents config (merge config timestamp scope destination (sourcesOf signatures source) s) =
      contents config s := by
  rw [contents_merge hne signatures hs hreaches, foldl_map]
  induction signatures with
  | nil => rfl
  | cons signature signatures ih =>
    obtain ⟨hfirst, hrest⟩ := forall_mem_cons.mp hempty
    rw [foldl_cons, hs.consistent.move_eq_self fun field ↦ ?_]
    · exact ih hrest
    · show getItem (s.hashes _) field = none
      rw [hfirst]
      rfl

/-- In a run, the sets and the hashes have the same fields, and what is recorded and then merged is
what is recorded where it is merged. -/
theorem consistent_and_merge_record (config : IndexConfig) (commands : List (Command config))
    (h : commands.Pairwise InWindow) :
    (∀ scope index band bucket item,
      (∃ interval, item ∈ ((minHashIndex config).run commands).store.sets
        (getBucketMembershipKey config scope index (packFrequencyCoordinate band bucket)
          interval)) ↔
      packFrequencyCoordinate band bucket ∈ (((minHashIndex config).run commands).store.hashes
        (getFrequencyKey config scope index item)).map Prod.fst) ∧
    ∀ scope source destination signatures recorded merged, source ≠ destination →
      (commands ++ [Command.record recorded scope source signatures,
        Command.merge merged scope destination (sourcesOf signatures source)]).Pairwise InWindow →
      contents config ((minHashIndex config).run (commands ++
          [Command.record recorded scope source signatures,
            Command.merge merged scope destination (sourcesOf signatures source)])).store =
        contents config ((minHashIndex config).run (commands ++
          [Command.merge merged scope destination (sourcesOf signatures source),
            Command.record recorded scope destination signatures])).store ∧
      ((∀ signature ∈ signatures, ((minHashIndex config).run commands).store.hashes
          (getFrequencyKey config scope signature.index source) = []) →
        contents config ((minHashIndex config).run (commands ++
            [Command.record recorded scope source signatures,
              Command.merge merged scope destination (sourcesOf signatures source)])).store =
          contents config ((minHashIndex config).run (commands ++
            [Command.record recorded scope destination signatures])).store) := by
  have hs := indexInvariant_run h
  constructor
  · intro scope index band bucket item
    exact (hs.wellFormed.consistent (scope, index) item _).trans getItem_isSome_iff
  · intro scope source destination signatures recorded merged hne hwindow
    obtain ⟨-, hpair, hlast⟩ := pairwise_append.mp hwindow
    have hsees : currentIndex config recorded ∈ window config merged :=
      (pairwise_cons.mp hpair).1 _ (mem_singleton_self _) _ (mem_singleton_self _)
    have hreaches : MembersIn config (window config merged)
        ((minHashIndex config).run commands).store := by
      refine hs.members.mono fun interval hinterval ↦ ?_
      obtain ⟨earlier, hearlier, hmem⟩ := mem_flatMap.mp hinterval
      exact hlast earlier hearlier _ (mem_cons_of_mem _ (mem_singleton_self _)) interval
        hmem
    have hrun : ∀ rest, (minHashIndex config).run (commands ++ rest) =
        rest.foldl (runCommand config) ((minHashIndex config).run commands) :=
      fun rest ↦ foldl_append
    have hboth := contents_merge_record scope hne signatures hs.wellFormed hreaches hsees
    rw [hrun, hrun, hrun]
    refine ⟨hboth, fun hempty ↦ hboth.trans ?_⟩
    show contents config (record config recorded scope destination signatures
        (merge config merged scope destination (sourcesOf signatures source)
          ((minHashIndex config).run commands).store)) =
      contents config (record config recorded scope destination signatures
        ((minHashIndex config).run commands).store)
    rw [contents_record, contents_record,
      contents_merge_empty hne signatures hs.wellFormed hreaches hempty]

/-- One band, and intervals of ten seconds. -/
def oneBand : IndexConfig := ⟨['s'], 1, 10, 3, by decide, by decide⟩

/-- One bucket of an index. -/
def oneBucket : Signature oneBand := ⟨letter 'a' (by decide), [[(['x'], 1)]], rfl⟩

/-- A group that was recorded, and another one that is recorded and merged into it. -/
theorem consistent_and_merge_record_oneBand :
    contents oneBand ((minHashIndex oneBand).run
      [.record 5 (letter 'p' (by decide)) (letter '7' (by decide)) [oneBucket],
        .record 15 (letter 'p' (by decide)) (letter '8' (by decide)) [oneBucket],
        .merge 25 (letter 'p' (by decide)) (letter '7' (by decide))
          (sourcesOf [oneBucket] (letter '8' (by decide)))]).store =
    contents oneBand ((minHashIndex oneBand).run
      [.record 5 (letter 'p' (by decide)) (letter '7' (by decide)) [oneBucket],
        .record 15 (letter 'p' (by decide)) (letter '7' (by decide)) [oneBucket]]).store := by
  have hwindow : currentIndex oneBand 5 ∈ window oneBand 25 ∧
      currentIndex oneBand 15 ∈ window oneBand 25 := by decide
  refine ((consistent_and_merge_record oneBand
    [.record 5 (letter 'p' (by decide)) (letter '7' (by decide)) [oneBucket]]
    (pairwise_singleton _ _)).2 (letter 'p' (by decide)) (letter '8' (by decide))
    (letter '7' (by decide)) [oneBucket] 15 25 (by decide) ?_).2 ?_
  · simpa [InWindow, Command.intervals, Command.Sees] using hwindow
  · intro signature hsignature
    rw [mem_singleton.mp hsignature]
    decide

end Sentry.Similarity
