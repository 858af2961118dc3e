import Sentry.Replays.Downloads

/-!
# Messages that the consumer survives

The documentation of `replays/consumers/recording_buffered.py` asks that all deterministic errors
are handled. Where the headers or the body of a message are bad, the buffer is left unchanged. Only
an empty body is not handled: it cannot be decompressed, and the handler of that error looks at its
first byte (`survives_iff`). `parseReplayActions` gives any result, which is nothing where an
exception is caught.
-/

namespace Sentry.Replays

variable {Actions : Type*} (env : Environment Actions) (buffer : RecordingBuffer Actions)
  (message : Bytes)

/-- What is left of a message in the buffer: nothing, or its uploads. -/
inductive Processed : RecordingBuffer Actions → Prop
  | undecoded (h : env.decode message = none) : Processed buffer
  | badHeaders {decoded : ReplayRecording} (h : env.decode message = some decoded)
      (hheaders : processHeaders env decoded.payload = none) : Processed buffer
  | badBody {decoded : ReplayRecording} {segmentId : ℤ} {body : Bytes}
      (h : env.decode message = some decoded)
      (hheaders : processHeaders env decoded.payload = some (segmentId, body))
      (hzlib : env.zlib.decompress body = none) (hbracket : body.head? ≠ some bracket) :
      Processed buffer
  | appended {decoded : ReplayRecording} {segmentId : ℤ} {body data compressed : Bytes}
      {after : RecordingBuffer Actions} (h : env.decode message = some decoded)
      (hheaders : processHeaders env decoded.payload = some (segmentId, body))
      (hbody : readBody env.zlib body = .recording data compressed)
      (huploads : after.uploadEvents =
        buffer.uploadEvents ++ uploads env decoded segmentId data compressed)
      (hinitial : buffer.initialSegmentEvents <+: after.initialSegmentEvents)
      (hactions : buffer.replayActionEvents <+: after.replayActionEvents) : Processed after

variable {env}

end Sentry.Replays
