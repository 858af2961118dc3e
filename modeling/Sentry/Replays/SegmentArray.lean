import Sentry.Replays.Downloads
import Sentry.Library.JsonText

/-!
# The array of downloaded segments

`download_segments` of `replays/usecases/reader.py` puts the recordings of some segments in one
array. After a segment whose object is missing no comma follows, so the chunks form an array of as
many items as segments exactly if only the last one may be missing (`formsArray_iff`).
-/

namespace Sentry.Replays

open List
open Library.JsonText

variable (zlib : Zlib) (filestore : RecordingSegmentStorageMeta → Option Bytes) (storage : Storage)

def segmentChunks (length : ℕ) : Option (Option Bytes × Bytes) × ℕ → List Bytes
  | (none, _) => [[91, 93]]
  | (some (_, data), i) => if i < length - 1 then [data, [44]] else [data]

/-- `download_segments`, the chunks that are yielded; `none` is an exception. -/
def downloadSegments (segments : List RecordingSegmentStorageMeta) : Option (List Bytes) := do
  let segmentData ← segments.mapM (downloadParts zlib filestore storage)
  return [91] :: (segmentData.zipIdx.flatMap (segmentChunks segments.length) ++ [[93]])

/-- The object of a segment is missing. -/
def Missing (segment : RecordingSegmentStorageMeta) : Prop :=
  getSegment filestore storage segment = none

/-- The element of the array for a segment. -/
inductive Element (segment : RecordingSegmentStorageMeta) : Value → Prop
  | missing (h : Missing filestore storage segment) : Element segment (.array [])
  | present {video : Option Bytes} {data : Bytes} {items : List Value}
      (h : downloadParts zlib filestore storage segment = some (some (video, data)))
      (hdata : IsText data (.array items)) : Element segment (.array items)

/-- The chunks are an array with the elements of the segments. -/
def FormsArray (segments : List RecordingSegmentStorageMeta) : Prop :=
  ∃ chunks values, downloadSegments zlib filestore storage segments = some chunks ∧
    List.Forall₂ (Element zlib filestore storage) segments values ∧
    IsText chunks.flatten (.array values)

variable {zlib filestore storage} {segment : RecordingSegmentStorageMeta}
  {segments : List RecordingSegmentStorageMeta}

theorem downloadParts_of_missing (h : Missing filestore storage segment) :
    downloadParts zlib filestore storage segment = some none := by
  rw [downloadParts, show getSegment filestore storage segment = none from h]

theorem isText_empty : IsText [91, 93] (.array []) := by
  have hblank : Blank [] := fun _ h ↦ absurd h not_mem_nil
  exact .mk hblank (.emptyArray hblank) hblank

/-- What is downloaded for an element, with the text of the element. -/
theorem Element.exists_result {value : Value} (h : Element zlib filestore storage segment value) :
    ∃ result text, downloadParts zlib filestore storage segment = some result ∧
      IsText text value ∧ (Missing filestore storage segment ↔ result = none) ∧
      ∀ length i, (segmentChunks length (result, i)).flatten =
        if result ≠ none ∧ i < length - 1 then text ++ [44] else text := by
  cases h with
  | missing h =>
    exact ⟨none, [91, 93], downloadParts_of_missing h, isText_empty, iff_of_true h rfl,
      fun _ _ ↦ rfl⟩
  | @present video data items h hdata =>
    refine ⟨some (video, data), data, h, hdata, iff_of_false ?_ (by simp), fun length i ↦ ?_⟩
    · intro hmissing
      rw [downloadParts_of_missing hmissing] at h
      cases h
    · by_cases hi : i < length - 1
      · simp [segmentChunks, hi]
      · simp [segmentChunks, hi]

/-- The chunks of some segments are items if all but the last are there, and have a comma for each
of these that is. -/
theorem exists_chunks {values : List Value}
    (h : List.Forall₂ (Element zlib filestore storage) segments values) {start length : ℕ}
    (hlength : start + segments.length = length) :
    ∃ results, segments.mapM (downloadParts zlib filestore storage) = some results ∧
      (segments ≠ [] → (∀ s ∈ segments.dropLast, ¬Missing filestore storage s) →
        IsItems ((results.zipIdx start).flatMap (segmentChunks length)).flatten values) ∧
      ∀ commas, (Scanner.plain 1 commas).scan
          ((results.zipIdx start).flatMap (segmentChunks length)).flatten =
        .plain 1 (commas + segments.dropLast.countP fun s ↦
          (getSegment filestore storage s).isSome) := by
  induction h generalizing start with
  | nil => exact ⟨[], rfl, fun h ↦ absurd rfl h, fun _ ↦ rfl⟩
  | @cons segment value segments values h hrest ih =>
    rw [length_cons, ← Nat.add_assoc, Nat.add_right_comm] at hlength
    obtain ⟨results, hresults, hitems, hscan⟩ := ih hlength
    obtain ⟨result, text, hresult, htext, hmissing, hchunks⟩ := h.exists_result
    refine ⟨result :: results, by simp [hresult, hresults], ?_, ?_⟩
    all_goals rw [zipIdx_cons, flatMap_cons, flatten_append, hchunks]
    · intro _ hpresent
      cases hrest with
      | nil =>
        cases Option.some.inj hresults
        rw [if_neg (by simp at hlength; omega)]
        simpa using IsItems.one htext
      | @cons other value' segments values hother hrest =>
        rw [dropLast_cons_cons, forall_mem_cons] at hpresent
        rw [length_cons] at hlength
        rw [if_pos ⟨fun hnone ↦ hpresent.1 (hmissing.mpr hnone), by omega⟩, append_assoc]
        exact .cons htext (hitems (cons_ne_nil _ _) hpresent.2)
    · intro commas
      rw [scan_append]
      cases hrest with
      | nil =>
        cases Option.some.inj hresults
        rw [if_neg (by simp at hlength; omega), scan_text htext]
        rfl
      | @cons other value' segments values hother hrest =>
        rw [length_cons] at hlength
        rw [dropLast_cons_cons, countP_cons, Nat.add_comm (List.countP _ _),
          ← Nat.add_assoc, ← hscan]
        by_cases hnone : result = none
        · rw [if_neg (fun h ↦ h.1 hnone), scan_text htext,
            show getSegment filestore storage segment = none from hmissing.mpr hnone]
          rfl
        · have hsome : (getSegment filestore storage segment).isSome = true :=
            Option.isSome_iff_ne_none.mpr fun h ↦ hnone (hmissing.mp h)
          rw [if_pos ⟨hnone, by omega⟩, scan_append, scan_text htext, hsome]
          rfl

/-- The chunks form an array exactly if no segment but the last one is missing. -/
theorem formsArray_iff (segments : List RecordingSegmentStorageMeta)
    (h : ∀ s ∈ segments, ∃ value, Element zlib filestore storage s value) :
    FormsArray zlib filestore storage segments ↔
      ∀ s ∈ segments.dropLast, ¬Missing filestore storage s := by
  obtain ⟨values, hvalues⟩ : ∃ values, List.Forall₂ (Element zlib filestore storage) segments
      values := by
    induction segments with
    | nil => exact ⟨[], .nil⟩
    | cons s segments ih =>
      rw [forall_mem_cons] at h
      obtain ⟨value, hvalue⟩ := h.1
      obtain ⟨values, hvalues⟩ := ih h.2
      exact ⟨value :: values, .cons hvalue hvalues⟩
  obtain ⟨results, hresults, hitems, hscan⟩ := exists_chunks hvalues (Nat.zero_add _)
  have hdownload : downloadSegments zlib filestore storage segments =
      some ([91] :: (results.zipIdx.flatMap (segmentChunks segments.length) ++ [[93]])) := by
    rw [downloadSegments, hresults]
    rfl
  constructor
  · rintro ⟨chunks, values', hchunks, hvalues', htext⟩
    obtain rfl := Option.some.inj (hdownload.symm.trans hchunks)
    have harray := scan_array htext
    rw [flatten_cons, flatten_append, scan_append, scan_append] at harray
    change ((Scanner.plain 1 0).scan _).scan [93] = _ at harray
    rw [hscan, Nat.zero_add, ← hvalues'.length_eq, ← length_dropLast] at harray
    have hcount := (Scanner.plain.inj harray).2
    rw [countP_eq_length] at hcount
    intro s hs hmissing
    have hsome := hcount s hs
    rw [show getSegment filestore storage s = none from hmissing] at hsome
    cases hsome
  · intro hpresent
    refine ⟨_, values, hdownload, hvalues, ?_⟩
    have hblank : Blank [] := fun _ h ↦ absurd h not_mem_nil
    have htext : IsValue ([91] :: (results.zipIdx.flatMap (segmentChunks segments.length) ++
        [[93]])).flatten (.array values) := by
      rw [flatten_cons, flatten_append]
      cases hvalues with
      | nil =>
        cases Option.some.inj hresults
        exact .emptyArray hblank
      | cons hvalue hrest => exact .array (hitems (cons_ne_nil _ _) hpresent)
    have := IsText.mk hblank htext hblank
    rwa [append_nil] at this

/-- A segment without an object in an empty storage. -/
def lostSegment : RecordingSegmentStorageMeta := recordingSegment sampleRecording 0

theorem formsArray_iff_lostSegment :
    FormsArray sampleZlib (fun _ ↦ none) (fun _ ↦ none) [lostSegment] ↔
      ∀ s ∈ [lostSegment].dropLast, ¬Missing (fun _ ↦ none) (fun _ ↦ none) s :=
  formsArray_iff [lostSegment] fun s hs ↦ by
    rw [mem_singleton.mp hs]
    exact ⟨_, .missing rfl⟩

/-- Two segments that are missing give `[[][]]`. -/
theorem lostSegments_not_formsArray :
    ¬∀ (zlib : Zlib) (filestore : RecordingSegmentStorageMeta → Option Bytes) (storage : Storage)
      (segments : List RecordingSegmentStorageMeta),
      (∀ s ∈ segments, ∃ value, Element zlib filestore storage s value) →
        FormsArray zlib filestore storage segments := by
  intro h
  obtain ⟨chunks, values, hchunks, hvalues, htext⟩ := h sampleZlib (fun _ ↦ none) (fun _ ↦ none)
    [lostSegment, lostSegment] fun s hs ↦ ⟨_, .missing (by
      rcases mem_pair.mp hs with rfl | rfl <;> rfl)⟩
  have hdownload : downloadSegments sampleZlib (fun _ ↦ none) (fun _ ↦ none)
      [lostSegment, lostSegment] = some [[91], [91, 93], [91, 93], [93]] := rfl
  obtain rfl := Option.some.inj (hdownload.symm.trans hchunks)
  have hscan := scan_array htext
  rw [← hvalues.length_eq] at hscan
  exact absurd (Scanner.plain.inj hscan).2 (by decide)

end Sentry.Replays
