import Sentry.Replays.Recording
import Mathlib.Data.List.Nodup

/-!
# Recordings are read as they were sent

What `pack` has joined `unpack` separates (`unpack_pack`). The reader tells a packed object from a
recording by the first byte: a JSON array starts with `[` or white space, neither of which is the
byte of a packed format (`StartsArray`). So with every layout of the uploads the reader gets the
recording and the video that the message had (`download_processMessage`).
-/

namespace Sentry.Replays

open List Option

@[simp] theorem length_toUintBytes (length : ℕ) : (toUintBytes length).length = 4 := rfl

/-- The four bytes of a length below `2 ^ 32` read back. -/
theorem fromBytes_toUintBytes {length : ℕ} (h : length < 2 ^ 32) :
    fromBytes (toUintBytes length) = length := by
  have hbyte (n : ℕ) : (UInt8.ofNat (n &&& 0xFF)).toNat = n % 256 := by
    rw [UInt8.toNat_ofNat', show 0xFF = 2 ^ 8 - 1 from rfl, Nat.and_two_pow_sub_one_eq_mod]
    exact Nat.mod_mod n 256
  have hbytes : toUintBytes length =
      [3, 2, 1, 0].map fun i ↦ UInt8.ofNat ((length >>> (i * 8)) &&& 0xFF) := rfl
  simp only [fromBytes, hbytes, map_cons, map_nil, foldl_cons, foldl_nil, hbyte,
    Nat.shiftRight_eq_div_pow]
  omega

theorem unpackVideo_pack {video : Bytes} (hvideo : video.length < 2 ^ 32) (rrweb : Bytes) :
    unpackVideo (pack rrweb (some video)) = (some video, rrweb) := by
  have hlength := length_toUintBytes video.length
  have hheader : (((pack rrweb (some video)).take headerOffset).drop 1) =
      toUintBytes video.length := by
    rw [pack, headerOffset, usize, take_succ_cons, drop_succ_cons, drop_zero,
      append_assoc, ← hlength, take_left]
  have hsplit : pack rrweb (some video) = (1 :: toUintBytes video.length) ++ video ++ rrweb := rfl
  have hoffset : (1 :: toUintBytes video.length).length = headerOffset := rfl
  have hending : fromBytes (((pack rrweb (some video)).take headerOffset).drop 1) + headerOffset =
      ((1 :: toUintBytes video.length) ++ video).length := by
    rw [hheader, fromBytes_toUintBytes hvideo, length_append, hoffset, Nat.add_comm]
  simp only [unpackVideo, hending]
  rw [hsplit, take_left, drop_left, ← hoffset, drop_left]

theorem unpack_pack (rrweb : Bytes) (video : Option Bytes)
    (hvideo : ∀ v ∈ video, v.length < 2 ^ 32) :
    unpack (pack rrweb video) = some (video, rrweb) := by
  cases video with
  | none => rfl
  | some video =>
    have hunpack := unpackVideo_pack (hvideo video rfl) rrweb
    rw [← hunpack]
    rfl

def whitespace : List UInt8 := [0x20, 0x09, 0x0A, 0x0D]

/-- A text is an array if the first byte after white space is `[`. -/
def StartsArray (body : Bytes) : Prop :=
  (body.dropWhile (· ∈ whitespace)).head? = some bracket

theorem unpack_of_startsArray {body : Bytes} (h : StartsArray body) :
    unpack body = some (none, body) := by
  cases body with
  | nil => exact absurd h (by simp [StartsArray])
  | cons first rest =>
    have hfirst : first ∈ whitespace ∨ first = bracket := by
      by_cases hwhite : first ∈ whitespace
      · exact Or.inl hwhite
      · rw [StartsArray, dropWhile_cons_of_neg (by simpa using hwhite)] at h
        exact Or.inr (Option.some.inj h)
    have hwhitespace : ∀ byte ∈ whitespace, byte ≠ 0 ∧ byte ≠ 1 := by simp [whitespace]
    have hpacked : first ≠ 0 ∧ first ≠ 1 := by
      rcases hfirst with hwhite | rfl
      · exact hwhitespace first hwhite
      · decide
    by_cases hbracket : first = bracket
    · exact if_pos hbracket
    · rw [unpack, if_neg hbracket, if_neg hpacked.1, if_neg hpacked.2]

theorem commitUploads_of_notMem {uploadEvents : List UploadEvent} {key : List Char}
    (h : key ∉ uploadEvents.map UploadEvent.key) (storage : Storage) :
    commitUploads storage uploadEvents key = storage key := by
  induction uploadEvents generalizing storage with
  | nil => rfl
  | cons upload rest ih =>
    rw [map_cons, mem_cons, not_or] at h
    rw [commitUploads, foldl_cons, ← commitUploads, ih h.2, Function.update_of_ne h.1]

theorem commitUploads_of_mem {uploadEvents : List UploadEvent}
    (hnodup : (uploadEvents.map UploadEvent.key).Nodup) {upload : UploadEvent}
    (hmem : upload ∈ uploadEvents) (storage : Storage) :
    commitUploads storage uploadEvents upload.key = some upload.value := by
  induction uploadEvents generalizing storage with
  | nil => exact absurd hmem not_mem_nil
  | cons first rest ih =>
    rw [map_cons, nodup_cons] at hnodup
    rw [commitUploads, foldl_cons, ← commitUploads]
    rcases mem_cons.mp hmem with rfl | hrest
    · rw [commitUploads_of_notMem hnodup.1, Function.update_self]
    · exact ih hnodup.2 hrest _

theorem makeVideoFilename_ne (segment : RecordingSegmentStorageMeta) :
    makeVideoFilename segment ≠ makeRecordingFilename segment := by
  intro h
  have hlength := congrArg List.length h
  rw [makeVideoFilename, length_append] at hlength
  exact absurd hlength (by simp)

variable {zlib : Zlib} {storage : Storage} {segment : RecordingSegmentStorageMeta}

theorem decompress_of_zlib (hzlib : zlib.Lawful) {data text : Bytes}
    (h : zlib.decompress data = some text) : decompress zlib data = some text := by
  have hbracket : ¬ [bracket] <+: data := by
    rintro ⟨rest, rfl⟩
    rw [singleton_append, hzlib.decompress_bracket rest] at h
    exact absurd h (some_ne_none text).symm
  rw [decompress, if_neg hbracket, hzlib.decompressAuto_of_decompress data text h]

theorem downloadParts_eq (hzlib : zlib.Lawful)
    (filestore : RecordingSegmentStorageMeta → Option Bytes) (hfile : segment.fileId = none)
    {data text : Bytes} (hstored : storage (makeRecordingFilename segment) = some data)
    (htext : zlib.decompress data = some text) {parts : Option Bytes × Bytes}
    (hparts : unpack text = some parts) :
    downloadParts zlib filestore storage segment = some (some parts) := by
  have hget : getSegment filestore storage segment = some data := by
    rw [getSegment, hfile]
    exact hstored
  simp only [downloadParts, hget, decompress_of_zlib hzlib htext, bind_eq_bind,
    bind_some, hparts, map_some]

theorem download_of_parts {filestore : RecordingSegmentStorageMeta → Option Bytes}
    {video : Option Bytes} {body : Bytes}
    (h : downloadParts zlib filestore storage segment = some (some (video, body))) :
    downloadSegment zlib filestore storage segment = some body ∧
      downloadVideo zlib filestore storage segment =
        some (video.orElse fun _ ↦ storage (makeVideoFilename segment)) := by
  unfold downloadSegment downloadVideo
  rw [h]
  cases video <;> exact ⟨rfl, rfl⟩

variable {Actions : Type*} {env : Environment Actions}

theorem readBody_recording (hzlib : zlib.Lawful) {sent data compressed : Bytes}
    (h : readBody zlib sent = .recording data compressed) :
    data = (zlib.decompress sent).getD sent ∧ zlib.decompress compressed = some data := by
  unfold readBody at h
  cases hsent : zlib.decompress sent with
  | some text =>
    rw [hsent] at h
    obtain ⟨rfl, rfl⟩ := Body.recording.inj h
    exact ⟨rfl, hsent⟩
  | none =>
    cases sent with
    | nil => rw [hsent] at h; exact absurd h (by simp)
    | cons first rest =>
      by_cases hbracket : first = bracket
      · simp only [hsent, if_pos hbracket] at h
        obtain ⟨rfl, rfl⟩ := Body.recording.inj h
        exact ⟨rfl, hzlib.decompress_compress _⟩
      · simp only [hsent, if_neg hbracket] at h
        exact absurd h (by simp)

theorem nodup_uploads (decoded : ReplayRecording) (segmentId : ℤ) (data compressed : Bytes) :
    ((uploads env decoded segmentId data compressed).map UploadEvent.key).Nodup := by
  have hne := Ne.symm (makeVideoFilename_ne (recordingSegment decoded segmentId))
  unfold uploads
  cases decoded.replayVideo.filter (· ≠ []) with
  | none => exact nodup_singleton _
  | some video =>
    by_cases hpacking : decoded.orgId ∈ env.filePacking
    · simp only [if_pos hpacking]
      exact nodup_singleton _
    · simpa only [if_neg hpacking, map_cons, map_nil, nodup_cons,
        mem_singleton, not_mem_nil, not_false_eq_true, nodup_nil, and_true]

theorem download_uploads (hzlib : env.zlib.Lawful)
    (filestore : RecordingSegmentStorageMeta → Option Bytes) {decoded : ReplayRecording}
    {segmentId : ℤ} {data compressed : Bytes}
    (hcompressed : env.zlib.decompress compressed = some data) (harray : StartsArray data)
    (hvideo : ∀ video ∈ decoded.replayVideo, video.length < 2 ^ 32)
    (hstored : ∀ upload ∈ uploads env decoded segmentId data compressed,
      storage upload.key = some upload.value)
    (hother : makeVideoFilename (recordingSegment decoded segmentId) ∉
        (uploads env decoded segmentId data compressed).map UploadEvent.key →
      storage (makeVideoFilename (recordingSegment decoded segmentId)) = none) :
    downloadSegment env.zlib filestore storage (recordingSegment decoded segmentId) = some data ∧
      downloadVideo env.zlib filestore storage (recordingSegment decoded segmentId) =
        some (decoded.replayVideo.filter (· ≠ [])) := by
  have hne := makeVideoFilename_ne (recordingSegment decoded segmentId)
  have hplain := unpack_of_startsArray harray
  unfold uploads at hstored hother
  cases hfilter : decoded.replayVideo.filter (· ≠ []) with
  | none =>
    simp only [hfilter, forall_mem_singleton] at hstored
    simp only [hfilter, map_cons, map_nil, mem_singleton] at hother
    have hparts := downloadParts_eq hzlib filestore rfl hstored hcompressed hplain
    have hnone := hother hne
    rw [← hnone]
    exact download_of_parts hparts
  | some video =>
    have hlength := hvideo video (mem_filter_iff.mp hfilter).1
    by_cases hpacking : decoded.orgId ∈ env.filePacking
    · simp only [hfilter, if_pos hpacking, forall_mem_singleton] at hstored
      have hunpack := unpack_pack data (some video) (by simpa using hlength)
      have hparts := downloadParts_eq hzlib filestore rfl hstored
        (hzlib.decompress_compress _) hunpack
      exact download_of_parts hparts
    · simp only [hfilter, if_neg hpacking, forall_mem_cons] at hstored
      have hparts := downloadParts_eq hzlib filestore rfl hstored.1 hcompressed hplain
      rw [← hstored.2.1]
      exact download_of_parts hparts

/-- Assumes: the message is decoded, its headers are read and its recording is accepted; the
recording is the text of an array; and nothing was stored under the name of the video. After the
uploads, in any order, the reader gets the uncompressed recording and the video, none if it was
empty. -/
theorem download_processMessage (hzlib : env.zlib.Lawful)
    (filestore : RecordingSegmentStorageMeta → Option Bytes) {message sent : Bytes}
    {decoded : ReplayRecording} {segmentId : ℤ} {buffer buffer' : RecordingBuffer Actions}
    {accepted order : List UploadEvent} (hdecode : env.decode message = some decoded)
    (hheaders : processHeaders env decoded.payload = some (segmentId, sent))
    (hprocess : processMessage env buffer message = some buffer')
    (haccepted : buffer'.uploadEvents = buffer.uploadEvents ++ accepted) (hne : accepted ≠ [])
    (harray : StartsArray ((env.zlib.decompress sent).getD sent))
    (hvideo : ∀ video ∈ decoded.replayVideo, video.length < 2 ^ 32) (horder : order.Perm accepted)
    (hstorage : storage (makeVideoFilename (recordingSegment decoded segmentId)) = none) :
    downloadSegment env.zlib filestore (commitUploads storage order)
        (recordingSegment decoded segmentId) = some ((env.zlib.decompress sent).getD sent) ∧
      downloadVideo env.zlib filestore (commitUploads storage order)
        (recordingSegment decoded segmentId) = some (decoded.replayVideo.filter (· ≠ [])) := by
  unfold processMessage at hprocess
  simp only [hdecode, hheaders] at hprocess
  cases hbody : readBody env.zlib sent with
  | indexError =>
    rw [hbody] at hprocess
    exact absurd hprocess (some_ne_none buffer').symm
  | invalid =>
    rw [hbody] at hprocess
    obtain rfl := Option.some.inj hprocess
    exact absurd (self_eq_append_right.mp haccepted) hne
  | recording data compressed =>
    obtain ⟨hdata, hcompressed⟩ := readBody_recording hzlib hbody
    rw [hbody] at hprocess
    obtain rfl := Option.some.inj hprocess
    obtain rfl := append_cancel_left haccepted
    have hnodup : (order.map UploadEvent.key).Nodup :=
      (horder.map _).nodup_iff.mpr (nodup_uploads decoded segmentId data compressed)
    rw [← hdata] at harray ⊢
    refine download_uploads hzlib filestore hcompressed harray hvideo (fun upload hmem ↦ ?_)
      fun hnot ↦ ?_
    · exact commitUploads_of_mem hnodup (horder.mem_iff.mpr hmem) storage
    · rw [← (horder.map _).mem_iff] at hnot
      rw [commitUploads_of_notMem hnot, hstorage]

/-- `zlib` on the text `[]`; other texts are kept behind the bytes of a header. -/
def sampleZlib : Zlib where
  compress data :=
    if data = [91, 93] then [120, 156, 139, 142, 5, 0, 1, 21, 0, 185] else 120 :: 1 :: data
  decompress := sampleDecompress
  decompressAuto := sampleDecompress
where
  /-- The inverse. -/
  sampleDecompress (data : Bytes) : Option Bytes :=
    if data = [120, 156, 139, 142, 5, 0, 1, 21, 0, 185] then some [91, 93]
    else if [120, 1] <+: data then some (data.drop 2) else none

theorem sampleZlib_lawful : sampleZlib.Lawful where
  decompress_compress data := by
    by_cases hdata : data = [91, 93]
    · rw [hdata]
      decide
    · simp [sampleZlib, sampleZlib.sampleDecompress, hdata]
  decompress_bracket rest := by
    simp [sampleZlib, sampleZlib.sampleDecompress, bracket]
  decompressAuto_of_decompress _ _ h := h

/-- A message with the headers `{"segment_id":0}`, the recording `[]`, sent as it is, and a video.
-/
def sampleRecording : ReplayRecording where
  orgId := 1
  projectId := 2
  keyId := none
  replayId := "a"
  received := 0
  retentionDays := 30
  payload :=
    [123, 34, 115, 101, 103, 109, 101, 110, 116, 95, 105, 100, 34, 58, 48, 125, 10, 91, 93]
  replayVideo := some [1, 2, 3]

/-- Its environment, without file packing. -/
def sampleEnvironment : Environment Unit where
  decode _ := some sampleRecording
  loadSegmentId _ := some 0
  filePacking := []
  zlib := sampleZlib
  parseReplayActions _ _ := none

theorem download_sampleRecording :
    downloadSegment sampleZlib (fun _ ↦ none) (commitUploads (fun _ ↦ none)
        (uploads sampleEnvironment sampleRecording 0 [91, 93] (sampleZlib.compress [91, 93])))
        (recordingSegment sampleRecording 0) = some [91, 93] ∧
      downloadVideo sampleZlib (fun _ ↦ none) (commitUploads (fun _ ↦ none)
        (uploads sampleEnvironment sampleRecording 0 [91, 93] (sampleZlib.compress [91, 93])))
        (recordingSegment sampleRecording 0) = some (some [1, 2, 3]) :=
  download_processMessage (show sampleEnvironment.zlib.Lawful from sampleZlib_lawful) _
    (show sampleEnvironment.decode [] = some sampleRecording from rfl)
    (show processHeaders sampleEnvironment sampleRecording.payload = some (0, [91, 93]) from rfl)
    (show processMessage sampleEnvironment ⟨[], [], []⟩ [] = some _ from rfl) rfl
    (cons_ne_nil _ _) rfl (by decide) (List.Perm.refl _) rfl

end Sentry.Replays
