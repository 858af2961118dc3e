import Mathlib.Algebra.Group.Nat.Defs
import Mathlib.Logic.Function.Basic

/-!
# Replay recordings

`replays/consumers/recording_buffered.py`, which puts the recording and the video of a message among
the uploads of its buffer, `replays/usecases/pack.py`, which joins the two, and
`replays/usecases/reader.py`, which reads them back. The codec of the messages, the JSON reader of
the headers, the analysis of the recording and `zlib` are parameters. The metrics are left out.
-/

namespace Sentry.Replays

abbrev Bytes := List UInt8

/-- `ord("[")` -/
def bracket : UInt8 := 91

/-- `USIZE` -/
def usize : ℕ := 4

/-- `HEADER_OFFSET` -/
def headerOffset : ℕ := usize + 1

/-- `_to_uint_bytes` -/
def toUintBytes (length : ℕ) : Bytes :=
  (List.range usize).reverse.map fun i ↦ UInt8.ofNat ((length >>> (i * 8)) &&& 0xFF)

/-- `int.from_bytes` -/
def fromBytes (bytes : Bytes) : ℕ := bytes.foldl (fun value byte ↦ value * 256 + byte.toNat) 0

/-- `pack` -/
def pack (rrweb : Bytes) : Option Bytes → Bytes
  | none => 0 :: rrweb
  | some video => 1 :: (toUintBytes video.length ++ video ++ rrweb)

/-- `_unpack_video` -/
def unpackVideo (mv : Bytes) : Option Bytes × Bytes :=
  let ending := fromBytes ((mv.take headerOffset).drop 1) + headerOffset
  (some ((mv.take ending).drop headerOffset), mv.drop ending)

/-- `unpack`; `none` is the `IndexError` on an empty object. -/
def unpack : Bytes → Option (Option Bytes × Bytes)
  | [] => none
  | first :: rest =>
    if first = bracket then some (none, first :: rest)
    else if first = 0 then some (none, rest)
    else if first = 1 then some (unpackVideo (first :: rest))
    else some (none, first :: rest)

/-- `zlib.compress`, `zlib.decompress`, and this with `MAX_WBITS | 32`, which detects the format;
`none` is `zlib.error`. -/
structure Zlib where
  compress : Bytes → Bytes
  decompress : Bytes → Option Bytes
  decompressAuto : Bytes → Option Bytes

/-- Decompression inverts compression and refuses what starts with `[`, and detecting the format
does not change what is read in the `zlib` format. -/
structure Zlib.Lawful (zlib : Zlib) : Prop where
  decompress_compress : ∀ data, zlib.decompress (zlib.compress data) = some data
  decompress_bracket : ∀ rest, zlib.decompress (bracket :: rest) = none
  decompressAuto_of_decompress : ∀ data text,
    zlib.decompress data = some text → zlib.decompressAuto data = some text

/-- `RecordingSegmentStorageMeta`, without the date and the loaded file. -/
structure RecordingSegmentStorageMeta where
  projectId : ℤ
  replayId : String
  segmentId : ℤ
  retentionDays : Option ℤ
  fileId : Option ℤ

/-- `retention_days or 30` -/
def retentionOrDefault : Option ℤ → ℤ
  | none => 30
  | some days => if days = 0 then 30 else days

/-- `make_recording_filename` -/
def makeRecordingFilename (segment : RecordingSegmentStorageMeta) : List Char :=
  (toString (retentionOrDefault segment.retentionDays)).toList ++ '/' ::
    (toString segment.projectId).toList ++ '/' :: segment.replayId.toList ++ '/' ::
    (toString segment.segmentId).toList

/-- `make_video_filename` -/
def makeVideoFilename (segment : RecordingSegmentStorageMeta) : List Char :=
  makeRecordingFilename segment ++ ".video".toList

/-- `storage_kv.get` -/
abbrev Storage := List Char → Option Bytes

/-- `UploadEvent` -/
structure UploadEvent where
  key : List Char
  value : Bytes

/-- `_do_upload` of each event, in the order in which the pool runs them. -/
def commitUploads (storage : Storage) (uploadEvents : List UploadEvent) : Storage :=
  uploadEvents.foldl (fun storage upload ↦ Function.update storage upload.key (some upload.value))
    storage

/-- `ReplayRecording`, without what only the analysis of the recording reads. -/
structure ReplayRecording where
  orgId : ℤ
  projectId : ℤ
  keyId : Option ℤ
  replayId : String
  received : ℤ
  retentionDays : ℤ
  payload : Bytes
  replayVideo : Option Bytes

/-- `InitialSegmentEvent` -/
structure InitialSegmentEvent where
  keyId : Option ℤ
  orgId : ℤ
  projectId : ℤ
  received : ℤ
  replayId : String
  isReplayVideo : Bool

/-- The three lists of `RecordingBuffer`. -/
structure RecordingBuffer (Actions : Type*) where
  uploadEvents : List UploadEvent
  initialSegmentEvents : List InitialSegmentEvent
  replayActionEvents : List Actions

/-- What the consumer uses from elsewhere: the codec, the segment id in the headers if it is an
integer there, the options, and the actions that it finds in a recording, if any. -/
structure Environment (Actions : Type*) where
  decode : Bytes → Option ReplayRecording
  loadSegmentId : Bytes → Option ℤ
  filePacking : List ℤ
  zlib : Zlib
  parseReplayActions : ReplayRecording → Bytes → Option Actions

variable {Actions : Type*} (env : Environment Actions)

/-- `bytes_with_headers.split(b"\n", 1)`, `none` if there is no newline. -/
def splitHeaders : Bytes → Option (Bytes × Bytes)
  | [] => none
  | byte :: rest =>
    if byte = 10 then some ([], rest)
    else (splitHeaders rest).map fun parts ↦ (byte :: parts.1, parts.2)

/-- `process_headers`: the segment id and the rest. -/
def processHeaders (bytesWithHeaders : Bytes) : Option (ℤ × Bytes) := do
  let (headers, segment) ← splitHeaders bytesWithHeaders
  let segmentId ← env.loadSegmentId headers
  return (segmentId, segment)

/-- What becomes of the body of a recording. -/
inductive Body
  | recording (recordingData compressedSegment : Bytes)
  | invalid
  | indexError

/-- The `try` around `zlib.decompress` in `process_message`. -/
def readBody (zlib : Zlib) (compressedSegment : Bytes) : Body :=
  match zlib.decompress compressedSegment with
  | some recordingData => .recording recordingData compressedSegment
  | none =>
    match compressedSegment with
    | [] => .indexError
    | first :: rest =>
      if first = bracket then .recording (first :: rest) (zlib.compress (first :: rest))
      else .invalid

/-- The segment of a message. -/
def recordingSegment (decoded : ReplayRecording) (segmentId : ℤ) : RecordingSegmentStorageMeta where
  projectId := decoded.projectId
  replayId := decoded.replayId
  segmentId := segmentId
  retentionDays := some decoded.retentionDays
  fileId := none

/-- The uploads of `process_message`; an empty video is none. -/
def uploads (decoded : ReplayRecording) (segmentId : ℤ)
    (recordingData compressedSegment : Bytes) : List UploadEvent :=
  let segment := recordingSegment decoded segmentId
  match decoded.replayVideo.filter (· ≠ []) with
  | some replayVideo =>
    if decoded.orgId ∈ env.filePacking then
      [⟨makeRecordingFilename segment, env.zlib.compress (pack recordingData (some replayVideo))⟩]
    else
      [⟨makeRecordingFilename segment, compressedSegment⟩, ⟨makeVideoFilename segment, replayVideo⟩]
  | none => [⟨makeRecordingFilename segment, compressedSegment⟩]

/-- The initial segment events of `process_message`. -/
def initialSegmentEvents (decoded : ReplayRecording) (segmentId : ℤ) : List InitialSegmentEvent :=
  if segmentId = 0 then
    [{ keyId := decoded.keyId
       orgId := decoded.orgId
       projectId := decoded.projectId
       received := decoded.received
       replayId := decoded.replayId
       isReplayVideo := decoded.replayVideo.isSome }]
  else []

/-- `process_message`; `none` is the exception that it does not catch. -/
def processMessage (buffer : RecordingBuffer Actions) (message : Bytes) :
    Option (RecordingBuffer Actions) :=
  match env.decode message with
  | none => some buffer
  | some decoded =>
    match processHeaders env decoded.payload with
    | none => some buffer
    | some (segmentId, segment) =>
      match readBody env.zlib segment with
      | .indexError => none
      | .invalid => some buffer
      | .recording recordingData compressedSegment => some
        { uploadEvents := buffer.uploadEvents ++
            uploads env decoded segmentId recordingData compressedSegment
          initialSegmentEvents := buffer.initialSegmentEvents ++
            initialSegmentEvents decoded segmentId
          replayActionEvents := buffer.replayActionEvents ++
            (env.parseReplayActions decoded recordingData).toList }

/-- `decompress` -/
def decompress (zlib : Zlib) (buffer : Bytes) : Option Bytes :=
  if [bracket] <+: buffer then some buffer else zlib.decompressAuto buffer

def getSegment (filestore : RecordingSegmentStorageMeta → Option Bytes) (storage : Storage)
    (segment : RecordingSegmentStorageMeta) : Option Bytes :=
  match segment.fileId.filter (· ≠ 0) with
  | some _ => filestore segment
  | none => storage (makeRecordingFilename segment)

variable (zlib : Zlib) (filestore : RecordingSegmentStorageMeta → Option Bytes) (storage : Storage)

/-- `_download_segment`: the outer `none` is an exception, the inner one a missing object. -/
def downloadParts (segment : RecordingSegmentStorageMeta) :
    Option (Option (Option Bytes × Bytes)) :=
  match getSegment filestore storage segment with
  | none => some none
  | some result => do
    let decompressed ← decompress zlib result
    (unpack decompressed).map some

/-- `download_segment` -/
def downloadSegment (segment : RecordingSegmentStorageMeta) : Option Bytes :=
  (downloadParts zlib filestore storage segment).map fun results ↦
    (results.map Prod.snd).getD [91, 93]

/-- `download_video`: the outer `none` is an exception. -/
def downloadVideo (segment : RecordingSegmentStorageMeta) : Option (Option Bytes) :=
  (downloadParts zlib filestore storage segment).map fun
    | some (some video, _) => some video
    | _ => storage (makeVideoFilename segment)

end Sentry.Replays
