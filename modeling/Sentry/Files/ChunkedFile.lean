import Sentry.Library.Refinement
import Mathlib.Algebra.GroupWithZero.Nat
import Mathlib.Data.List.Nodup
import Mathlib.Data.Int.Order.Basic

/-!
# Reading a file that is stored in blobs

`models/files/abstractfile.py`. A file is a list of blob indexes with offsets.
`ChunkedFileBlobIndexWrapper` keeps the open file of one blob, its index, and an iterator over the
indexes that follow. It refines a flat file with the concatenated bytes (`Refines`): a seek finds
the last index not above the target (`seekTo_refines`), and a read drains the open blob in pieces of
32 KiB and moves on when it gets nothing (`readToEnd_refines`, `readBytes_refines`).
-/

namespace Sentry.Files

open Library
open List hiding count

/-! ### Blobs and their indexes -/

/-- `FileBlob`: its `size` is the length of the stored content. -/
structure FileBlob where
  content : List UInt8
  size : ℕ
  size_eq : size = content.length
  deriving DecidableEq

/-- `FileBlobIndex`: a row is told from another by its id. -/
structure FileBlobIndex where
  id : ℕ
  blob : FileBlob
  offset : ℕ
  deriving DecidableEq

/-- The offsets of the indexes are the sizes of the blobs before them, from `offset` on. -/
def Contiguous : ℕ → List FileBlobIndex → Prop
  | _, [] => True
  | offset, idx :: rest => idx.offset = offset ∧ Contiguous (offset + idx.blob.size) rest

def size (indexes : List FileBlobIndex) : ℕ := (indexes.map fun idx ↦ idx.blob.size).sum

def concatenation (indexes : List FileBlobIndex) : List UInt8 :=
  indexes.flatMap fun idx ↦ idx.blob.content

/-- The indexes of one file: contiguous from 0, and distinct rows. -/
structure BlobIndexes where
  toList : List FileBlobIndex
  contiguous : Contiguous 0 toList
  nodup : (toList.map fun idx ↦ idx.id).Nodup

theorem size_eq_length_concatenation (indexes : List FileBlobIndex) :
    size indexes = (concatenation indexes).length := by
  induction indexes with
  | nil => rfl
  | cons idx rest ih => simpa [size, concatenation, idx.blob.size_eq] using ih

theorem contiguous_append (offset : ℕ) (first second : List FileBlobIndex) :
    Contiguous offset (first ++ second) ↔
      Contiguous offset first ∧ Contiguous (offset + size first) second := by
  induction first generalizing offset with
  | nil => simp [Contiguous, size]
  | cons idx rest ih => simp [Contiguous, ih, size, and_assoc, Nat.add_assoc]

variable {idx : FileBlobIndex}

theorem Contiguous.offset_eq {before after : List FileBlobIndex}
    (h : Contiguous 0 (before ++ idx :: after)) :
    idx.offset = (concatenation before).length := by
  have hidx := ((contiguous_append 0 before (idx :: after)).mp h).2.1
  rw [hidx, Nat.zero_add, size_eq_length_concatenation]

theorem concatenation_append (first second : List FileBlobIndex) :
    concatenation (first ++ second) = concatenation first ++ concatenation second := by
  simp [concatenation]

theorem concatenation_cons (idx : FileBlobIndex) (rest : List FileBlobIndex) :
    concatenation (idx :: rest) = idx.blob.content ++ concatenation rest := by
  simp [concatenation]

/-! ### Creating the indexes -/

/-- `_create_blob_from_file`. A blob that is already stored under the checksum has the same
content. -/
def createBlobFromFile (contents : List UInt8) : FileBlob := ⟨contents, contents.length, rfl⟩

/-- The loop of `assemble_from_file_blob_ids` over the blobs, in the order and duplication as
provided. The rows get the ids `rowId count, rowId (count + 1), …`. -/
def createBlobIndexes (rowId : ℕ → ℕ) : ℕ → ℕ → List FileBlob → List FileBlobIndex
  | _, _, [] => []
  | count, offset, blob :: rest =>
    ⟨rowId count, blob, offset⟩ :: createBlobIndexes rowId (count + 1) (offset + blob.size) rest

/-- `assemble_from_file_blob_ids`. -/
def assembleFromFileBlobs (rowId : ℕ → ℕ) (fileBlobs : List FileBlob) : List FileBlobIndex :=
  createBlobIndexes rowId 0 0 fileBlobs

/-- The loop of `putfile`: reads `blobSize` bytes at a time until it gets none. -/
def putfileLoop (rowId : ℕ → ℕ) (blobSize : ℕ) (count offset : ℕ) (fileobj : List UInt8) :
    List FileBlobIndex :=
  let contents := fileobj.take blobSize
  if contents = [] then
    []
  else
    let blob := createBlobFromFile contents
    ⟨rowId count, blob, offset⟩ ::
      putfileLoop rowId blobSize (count + 1) (offset + blob.size) (fileobj.drop blobSize)
termination_by fileobj.length
decreasing_by
  rename_i hcontents
  have hpos : 0 < (fileobj.take blobSize).length := length_pos_iff.mpr hcontents
  rw [length_take] at hpos
  rw [length_drop]
  omega

def putfile (rowId : ℕ → ℕ) (blobSize : ℕ) (fileobj : List UInt8) : List FileBlobIndex :=
  putfileLoop rowId blobSize 0 0 fileobj

theorem contiguous_createBlobIndexes (rowId : ℕ → ℕ) (count offset : ℕ) (blobs : List FileBlob) :
    Contiguous offset (createBlobIndexes rowId count offset blobs) := by
  induction blobs generalizing count offset with
  | nil => trivial
  | cons blob rest ih => exact ⟨rfl, ih (count + 1) (offset + blob.size)⟩

theorem map_id_createBlobIndexes (rowId : ℕ → ℕ) (count offset : ℕ) (blobs : List FileBlob) :
    (createBlobIndexes rowId count offset blobs).map (fun idx ↦ idx.id) =
      (List.range' count blobs.length).map rowId := by
  induction blobs generalizing count offset with
  | nil => rfl
  | cons blob rest ih => simp [createBlobIndexes, ih, range'_succ]

/-- `putfile` creates the indexes of its pieces, as assembling them would. -/
theorem putfileLoop_eq (rowId : ℕ → ℕ) (blobSize count offset : ℕ) (fileobj : List UInt8) :
    ∃ blobs : List FileBlob,
      putfileLoop rowId blobSize count offset fileobj = createBlobIndexes rowId count offset blobs ∧
      (0 < blobSize → blobs.flatMap (fun blob ↦ blob.content) = fileobj) := by
  fun_induction putfileLoop rowId blobSize count offset fileobj with
  | case1 count offset fileobj contents hcontents =>
    refine ⟨[], by simp [createBlobIndexes], fun hpos ↦ ?_⟩
    rcases take_eq_nil_iff.mp hcontents with hzero | hnil
    · omega
    · simp [hnil]
  | case2 count offset fileobj contents hcontents blob ih =>
    obtain ⟨blobs, heq, hcontent⟩ := ih
    refine ⟨blob :: blobs, by simp [createBlobIndexes, heq], fun hpos ↦ ?_⟩
    rw [flatMap_cons, hcontent hpos]
    exact take_append_drop blobSize fileobj

/-- Assumes: the rows get distinct ids. What `assemble_from_file_blob_ids` creates. -/
def BlobIndexes.ofBlobs (rowId : ℕ → ℕ) (hrow : Function.Injective rowId)
    (fileBlobs : List FileBlob) : BlobIndexes where
  toList := assembleFromFileBlobs rowId fileBlobs
  contiguous := contiguous_createBlobIndexes rowId 0 0 fileBlobs
  nodup := by
    rw [assembleFromFileBlobs, map_id_createBlobIndexes]
    exact List.Nodup.map hrow nodup_range'

/-- Assumes: the rows get distinct ids. What `putfile` creates. -/
def BlobIndexes.ofFile (rowId : ℕ → ℕ) (hrow : Function.Injective rowId) (blobSize : ℕ)
    (fileobj : List UInt8) : BlobIndexes where
  toList := putfile rowId blobSize fileobj
  contiguous := by
    obtain ⟨blobs, heq, -⟩ := putfileLoop_eq rowId blobSize 0 0 fileobj
    rw [putfile, heq]
    exact contiguous_createBlobIndexes rowId 0 0 blobs
  nodup := by
    obtain ⟨blobs, heq, -⟩ := putfileLoop_eq rowId blobSize 0 0 fileobj
    rw [putfile, heq, map_id_createBlobIndexes]
    exact List.Nodup.map hrow nodup_range'

/-! ### The wrapper -/

/-- The exceptions of the wrapper: `ValueError("I/O operation on closed file")`,
`OSError("Invalid argument")`, `ValueError("Cannot seek to pos")` and a failed `assert`. -/
inductive FileError
  | closedFile
  | invalidArgument
  | cannotSeek
  | assertionError
  deriving DecidableEq

/-- What `blob.getfile()` opens: the content of the blob and a position in it. -/
structure BlobFile where
  content : List UInt8
  position : ℕ

def FileBlob.getfile (blob : FileBlob) : BlobFile := ⟨blob.content, 0⟩

/-- `_curfile.read(n)`: the bytes, and the file after the read. -/
def BlobFile.read (file : BlobFile) (n : ℕ) : List UInt8 × BlobFile :=
  let result := (file.content.drop file.position).take n
  (result, { file with position := file.position + result.length })

/-- `_curfile.seek(pos)`. -/
def BlobFile.seek (file : BlobFile) (pos : ℕ) : BlobFile := { file with position := pos }

/-- `ChunkedFileBlobIndexWrapper` without prefetching. -/
structure ChunkedFileBlobIndexWrapper where
  indexes : List FileBlobIndex
  curfile : Option BlobFile
  curidx : Option FileBlobIndex
  idxiter : List FileBlobIndex
  closed : Bool

namespace ChunkedFileBlobIndexWrapper

def nextidx (w : ChunkedFileBlobIndexWrapper) : ChunkedFileBlobIndexWrapper :=
  match w.idxiter with
  | [] => { w with curidx := none, curfile := none }
  | idx :: rest => { w with curidx := some idx, curfile := some idx.blob.getfile, idxiter := rest }

/-- `_seek`. The search enumerates the indexes from the last one; at the `n`-th of them the iterator
restarts with the last `n + 1` indexes. -/
def seekTo (w : ChunkedFileBlobIndexWrapper) (pos : ℤ) :
    Except FileError ChunkedFileBlobIndexWrapper :=
  if w.closed then
    .error .closedFile
  else if pos < 0 then
    .error .invalidArgument
  else if pos = 0 ∧ w.indexes = [] then
    .ok w
  else
    match w.indexes.reverse.findIdx? fun idx ↦ idx.offset ≤ pos with
    | none => .error .cannotSeek
    | some n =>
      let tail := w.indexes.drop (w.indexes.length - (n + 1))
      let w' :=
        if tail.head?.map (fun idx ↦ idx.id) = w.curidx.map (fun idx ↦ idx.id) then w
        else nextidx { w with idxiter := tail }
      match w'.curfile, w'.curidx with
      | some curfile, some curidx =>
        .ok { w' with curfile := some (curfile.seek (pos - curidx.offset).toNat) }
      | _, _ => .error .assertionError

def tell (w : ChunkedFileBlobIndexWrapper) : Except FileError ℕ :=
  if w.closed then
    .error .closedFile
  else
    match w.curfile, w.curidx with
    | none, _ => .ok (size w.indexes)
    | some _, none => .error .assertionError
    | some curfile, some curidx => .ok (curidx.offset + curfile.position)

/-- The `whence` of a seek. -/
inductive Whence
  | set
  | cur
  | «end»
  deriving DecidableEq

def seek (w : ChunkedFileBlobIndexWrapper) (pos : ℤ) :
    Whence → Except FileError ChunkedFileBlobIndexWrapper
  | .set => w.seekTo pos
  | .cur =>
    match w.tell with
    | .error e => .error e
    | .ok current => w.seekTo (current + pos)
  | .end => w.seekTo (size w.indexes + pos)

def remaining (w : ChunkedFileBlobIndexWrapper) : ℕ :=
  match w.curfile with
  | none => 0
  | some curfile => (curfile.content.drop curfile.position).length

def pending (w : ChunkedFileBlobIndexWrapper) : ℕ := w.idxiter.length + w.curfile.isSome.toNat

variable {curfile : BlobFile}

theorem pending_nextidx_lt {w : ChunkedFileBlobIndexWrapper}
    (h : w.curfile = some curfile) : w.nextidx.pending < w.pending := by
  unfold nextidx pending
  cases hiter : w.idxiter <;> simp [h]

section

variable {w : ChunkedFileBlobIndexWrapper} {n : ℕ} (h : w.curfile = some curfile)
  (hresult : (curfile.read n).1 ≠ [])

include h hresult

theorem remaining_read_lt :
    ({ w with curfile := some (curfile.read n).2 }).remaining < w.remaining := by
  have hpos := length_pos_iff.mpr hresult
  simp only [BlobFile.read, length_take, length_drop] at hpos
  simp only [remaining, h, BlobFile.read, length_take, length_drop]
  omega

theorem read_decreases :
    Prod.Lex (· < ·) (· < ·)
      (({ w with curfile := some (curfile.read n).2 }).pending,
        ({ w with curfile := some (curfile.read n).2 }).remaining)
      (w.pending, w.remaining) := by
  have hpending : ({ w with curfile := some (curfile.read n).2 }).pending = w.pending := by
    simp [pending, h]
  rw [hpending]
  exact Prod.Lex.right _ (remaining_read_lt h hresult)

end

/-- The loop of `read` for a negative `n`: reads to the end of the file. -/
def readToEnd (w : ChunkedFileBlobIndexWrapper) : List UInt8 × ChunkedFileBlobIndexWrapper :=
  match _hfile : w.curfile with
  | none => ([], w)
  | some curfile =>
    let blobResult := curfile.read 32768
    if blobResult.1 = [] then
      readToEnd w.nextidx
    else
      let result := readToEnd { w with curfile := some blobResult.2 }
      (blobResult.1 ++ result.1, result.2)
termination_by (w.pending, w.remaining)
decreasing_by
  · exact Prod.Lex.left _ _ (pending_nextidx_lt _hfile)
  · rename_i hresult
    exact read_decreases _hfile hresult

/-- The loop of `read` for `0 ≤ n`: reads until `n` bytes are read or the file ends. -/
def readBytes (n : ℕ) (w : ChunkedFileBlobIndexWrapper) :
    List UInt8 × ChunkedFileBlobIndexWrapper :=
  if n = 0 then
    ([], w)
  else
    match _hfile : w.curfile with
    | none => ([], w)
    | some curfile =>
      let blobResult := curfile.read (min n 32768)
      if blobResult.1 = [] then
        readBytes n w.nextidx
      else
        let result :=
          readBytes (n - blobResult.1.length) { w with curfile := some blobResult.2 }
        (blobResult.1 ++ result.1, result.2)
termination_by (w.pending, w.remaining)
decreasing_by
  · exact Prod.Lex.left _ _ (pending_nextidx_lt _hfile)
  · rename_i hresult
    exact read_decreases _hfile hresult

def read (w : ChunkedFileBlobIndexWrapper) (n : ℤ) :
    Except FileError (List UInt8 × ChunkedFileBlobIndexWrapper) :=
  if w.closed then .error .closedFile
  else if n < 0 then .ok w.readToEnd
  else .ok (w.readBytes n.toNat)

def close (w : ChunkedFileBlobIndexWrapper) : ChunkedFileBlobIndexWrapper :=
  { w with curfile := none, curidx := none, closed := true }

/-- `__init__` without prefetching, with the `open` it ends with. -/
def openWrapper (indexes : List FileBlobIndex) : Except FileError ChunkedFileBlobIndexWrapper :=
  seek ⟨indexes, none, none, [], false⟩ 0 .set

end ChunkedFileBlobIndexWrapper

/-! ### Operations on the two files -/

open ChunkedFileBlobIndexWrapper (Whence)

/-- The operations of a reader. -/
inductive FileOperation
  | seek (pos : ℤ) (whence : Whence)
  | tell
  | read (n : ℤ)
  deriving DecidableEq

/-- What an operation answers: the position is read off with `tell`, a `seek` answers nothing. -/
inductive Answer
  | nothing
  | position (pos : ℕ)
  | bytes (result : List UInt8)
  deriving DecidableEq

/-- An operation on the wrapper. -/
def ChunkedFileBlobIndexWrapper.operate (w : ChunkedFileBlobIndexWrapper) :
    FileOperation → Except FileError (Answer × ChunkedFileBlobIndexWrapper)
  | .seek pos whence => (w.seek pos whence).map fun w' ↦ (.nothing, w')
  | .tell => w.tell.map fun pos ↦ (.position pos, w)
  | .read n => (w.read n).map fun result ↦ (.bytes result.1, result.2)

/-- A flat file in memory. -/
structure FlatFile where
  bytes : List UInt8
  position : ℕ
  deriving DecidableEq

namespace FlatFile

def target (file : FlatFile) (pos : ℤ) : Whence → ℤ
  | .set => pos
  | .cur => file.position + pos
  | .end => file.bytes.length + pos

/-- The bytes that a read returns: all that are left when `n` is negative. -/
def readable (file : FlatFile) (n : ℤ) : List UInt8 :=
  let rest := file.bytes.drop file.position
  if n < 0 then rest else rest.take n.toNat

/-- An operation on the flat file. -/
def operate (file : FlatFile) : FileOperation → Answer × FlatFile
  | .seek pos whence => (.nothing, { file with position := (file.target pos whence).toNat })
  | .tell => (.position file.position, file)
  | .read n =>
    (.bytes (file.readable n), { file with position := file.position + (file.readable n).length })

/-- A seek stays inside the file. -/
def Inside (file : FlatFile) : FileOperation → Prop
  | .seek pos whence => 0 ≤ file.target pos whence ∧ file.target pos whence ≤ file.bytes.length
  | .tell => True
  | .read _ => True

instance decidableInside (file : FlatFile) (o : FileOperation) : Decidable (file.Inside o) := by
  cases o <;> unfold Inside <;> infer_instance

end FlatFile

/-! ### The wrapper refines the flat file -/

/-- The wrapper stands at the position of the flat file: either past all blobs, with no blob open,
or in a blob of the list with the iterator at the indexes that follow. -/
inductive At (w : ChunkedFileBlobIndexWrapper) (position : ℕ) : Prop
  | drained (hfile : w.curfile = none) (hidx : w.curidx = none)
      (hend : position = (concatenation w.indexes).length)
  | inBlob (before : List FileBlobIndex) (idx : FileBlobIndex) (pos : ℕ)
      (hidx : w.curidx = some idx) (hfile : w.curfile = some ⟨idx.blob.content, pos⟩)
      (hlist : w.indexes = before ++ idx :: w.idxiter)
      (hpos : pos ≤ idx.blob.content.length) (hposition : position = idx.offset + pos)

/-- The open wrapper over the indexes stands for the flat file. -/
structure Refines (indexes : BlobIndexes) (w : ChunkedFileBlobIndexWrapper) (file : FlatFile) :
    Prop where
  indexes_eq : w.indexes = indexes.toList
  opened : w.closed = false
  bytes_eq : file.bytes = concatenation indexes.toList
  position : At w file.position

variable {indexes : BlobIndexes} {w : ChunkedFileBlobIndexWrapper} {file : FlatFile}

variable {before : List FileBlobIndex}

section

variable (h : Refines indexes w file)

include h

theorem drop_bytes_eq {pos : ℕ} (hlist : w.indexes = before ++ idx :: w.idxiter)
    (hpos : pos ≤ idx.blob.content.length) (hposition : file.position = idx.offset + pos) :
    file.bytes.drop file.position = idx.blob.content.drop pos ++ concatenation w.idxiter := by
  have hcontiguous := indexes.contiguous
  rw [← h.indexes_eq, hlist] at hcontiguous
  rw [h.bytes_eq, ← h.indexes_eq, hlist, concatenation_append, concatenation_cons, hposition,
    hcontiguous.offset_eq, drop_length_add_append, drop_append_of_le_length hpos]

theorem nextidx_refines (hlist : w.indexes = before ++ idx :: w.idxiter)
    (hposition : file.position = idx.offset + idx.blob.content.length) :
    Refines indexes w.nextidx file := by
  have hcontiguous := indexes.contiguous
  rw [← h.indexes_eq, hlist] at hcontiguous
  have hbefore : file.position = (concatenation (before ++ [idx])).length := by
    rw [hposition, hcontiguous.offset_eq, concatenation_append, concatenation_cons]
    simp [concatenation]
  rcases hiter : w.idxiter with _ | ⟨next, rest⟩
  · have hnext : w.nextidx = { w with curidx := none, curfile := none } := by
      simp [ChunkedFileBlobIndexWrapper.nextidx, hiter]
    rw [hnext]
    refine ⟨h.indexes_eq, h.opened, h.bytes_eq, .drained rfl rfl ?_⟩
    rw [hbefore, hlist, hiter]
  · have hnext : w.nextidx =
        { w with curidx := some next, curfile := some next.blob.getfile, idxiter := rest } := by
      simp [ChunkedFileBlobIndexWrapper.nextidx, hiter]
    have hsplit : w.indexes = (before ++ [idx]) ++ next :: rest := by
      rw [hlist, hiter, append_assoc, singleton_append]
    have hoffset : next.offset = (concatenation (before ++ [idx])).length := by
      rw [← hlist, hsplit] at hcontiguous
      exact hcontiguous.offset_eq
    rw [hnext]
    refine ⟨h.indexes_eq, h.opened, h.bytes_eq,
      .inBlob (before ++ [idx]) next 0 rfl rfl hsplit (Nat.zero_le _) ?_⟩
    rw [hbefore, hoffset, Nat.add_zero]

theorem drop_bytes_eq_nil (hfile : w.curfile = none) : file.bytes.drop file.position = [] := by
  rcases h.position with ⟨-, -, hend⟩ | ⟨_, _, _, _, hopen, _, _, _⟩
  · rw [h.bytes_eq, ← h.indexes_eq, hend, drop_length]
  · rw [hfile] at hopen
    cases hopen

theorem Refines.nextidx {curfile : BlobFile} {n : ℕ} (hn : 0 < n)
    (hfile : w.curfile = some curfile) (hnil : (curfile.read n).1 = []) :
    Refines indexes w.nextidx file := by
  rcases h.position with ⟨hclosed, -, -⟩ | ⟨before, idx, pos, -, hopen, hlist, hpos, hposition⟩
  · rw [hfile] at hclosed
    cases hclosed
  · obtain rfl : curfile = ⟨idx.blob.content, pos⟩ := Option.some.inj (hfile.symm.trans hopen)
    have hdrained : pos = idx.blob.content.length := by
      have hlength := congrArg List.length hnil
      simp only [BlobFile.read, length_take, length_drop, length_nil] at hlength
      omega
    exact nextidx_refines h hlist (hdrained ▸ hposition)

theorem Refines.advance {curfile : BlobFile} {n : ℕ} (hfile : w.curfile = some curfile) :
    file.bytes.drop file.position =
        (curfile.read n).1 ++ file.bytes.drop (file.position + (curfile.read n).1.length) ∧
      Refines indexes { w with curfile := some (curfile.read n).2 }
        { file with position := file.position + (curfile.read n).1.length } := by
  rcases h.position with ⟨hclosed, -, -⟩ | ⟨before, idx, pos, hidx, hopen, hlist, hpos, hposition⟩
  · rw [hfile] at hclosed
    cases hclosed
  · obtain rfl : curfile = ⟨idx.blob.content, pos⟩ := Option.some.inj (hfile.symm.trans hopen)
    have hcount : pos + ((⟨idx.blob.content, pos⟩ : BlobFile).read n).1.length ≤
        idx.blob.content.length := by
      simp only [BlobFile.read, length_take, length_drop]
      omega
    have hread : ((⟨idx.blob.content, pos⟩ : BlobFile).read n).1 =
        (file.bytes.drop file.position).take
          ((⟨idx.blob.content, pos⟩ : BlobFile).read n).1.length := by
      rw [drop_bytes_eq h hlist hpos hposition,
        take_append_of_le_length (by simp only [length_drop]; omega)]
      simp [BlobFile.read]
    constructor
    · have hsplit := take_append_drop
        ((⟨idx.blob.content, pos⟩ : BlobFile).read n).1.length (file.bytes.drop file.position)
      rw [← hread, drop_drop] at hsplit
      exact hsplit.symm
    · refine ⟨h.indexes_eq, h.opened, h.bytes_eq, .inBlob before idx _ hidx rfl hlist hcount ?_⟩
      simp only [hposition, Nat.add_assoc, BlobFile.read]

/-- `read` with a negative `n` returns what is left of the file and ends at its end. -/
theorem readToEnd_refines :
    w.readToEnd.1 = file.bytes.drop file.position ∧
      Refines indexes w.readToEnd.2
        { file with position := file.position + (file.bytes.drop file.position).length } := by
  fun_induction ChunkedFileBlobIndexWrapper.readToEnd w generalizing file with
  | case1 w hfile =>
    rw [drop_bytes_eq_nil h hfile]
    exact ⟨rfl, h⟩
  | case2 w curfile hfile blobResult hnil =>
    rename_i ih
    exact ih (h.nextidx (by decide) hfile hnil)
  | case3 w curfile hfile blobResult hresult result =>
    rename_i ih
    obtain ⟨hrest, hadvance⟩ := h.advance (n := 32768) hfile
    obtain ⟨hbytes, hrefines⟩ := ih hadvance
    constructor
    · rw [hrest]
      exact congrArg (blobResult.1 ++ ·) hbytes
    · rw [hrest, length_append, ← Nat.add_assoc]
      exact hrefines

end

/-- `read` with `0 ≤ n` returns the next `n` bytes, or fewer at the end of the file. -/
theorem readBytes_refines (n : ℕ) (h : Refines indexes w file) :
    (w.readBytes n).1 = (file.bytes.drop file.position).take n ∧
      Refines indexes (w.readBytes n).2
        { file with
          position := file.position + ((file.bytes.drop file.position).take n).length } := by
  fun_induction ChunkedFileBlobIndexWrapper.readBytes n w generalizing file with
  | case1 w => simpa using h
  | case2 n w hn hfile =>
    rw [drop_bytes_eq_nil h hfile, take_nil]
    exact ⟨rfl, h⟩
  | case3 n w hn curfile hfile blobResult hnil =>
    rename_i ih
    exact ih (h.nextidx (by omega) hfile hnil)
  | case4 n w hn curfile hfile blobResult hresult result =>
    rename_i ih
    obtain ⟨hrest, hadvance⟩ := h.advance (n := min n 32768) hfile
    obtain ⟨hbytes, hrefines⟩ := ih hadvance
    have hcount : blobResult.1.length ≤ n := by
      simp only [blobResult, BlobFile.read, length_take]
      omega
    have htake : (file.bytes.drop file.position).take n = blobResult.1 ++
        (file.bytes.drop (file.position + blobResult.1.length)).take
          (n - blobResult.1.length) := by
      rw [hrest, take_append, take_of_length_le hcount]
    constructor
    · rw [htake]
      exact congrArg (blobResult.1 ++ ·) hbytes
    · rw [htake, length_append, ← Nat.add_assoc]
      exact hrefines

variable {pos : ℤ}

/-- The search of `_seek` finds the last index whose offset is not above the target: with `n` the
number of indexes behind it, the last `n + 1` indexes begin with it. -/
theorem exists_seek_index (indexes : BlobIndexes) (hne : indexes.toList ≠ []) (hpos : 0 ≤ pos) :
    ∃ before idx after, indexes.toList = before ++ idx :: after ∧ (idx.offset : ℤ) ≤ pos ∧
      (∀ later ∈ after, pos < later.offset) ∧
      indexes.toList.reverse.findIdx? (fun i ↦ i.offset ≤ pos) = some after.length := by
  have hfirst : ∃ i ∈ indexes.toList.reverse, decide ((i.offset : ℤ) ≤ pos) = true := by
    obtain ⟨first, rest, hlist⟩ := exists_cons_of_ne_nil hne
    have hcontiguous := indexes.contiguous
    rw [hlist] at hcontiguous
    refine ⟨first, by simp [hlist], ?_⟩
    rw [hcontiguous.1]
    exact decide_eq_true hpos
  obtain ⟨idx, hfind⟩ := Option.isSome_iff_exists.mp (find?_isSome.mpr hfirst)
  obtain ⟨hidx, behind, front, hsplit, hbehind⟩ := find?_eq_some_iff_append.mp hfind
  have hlater : ∀ later ∈ behind, ¬(later.offset : ℤ) ≤ pos := by
    intro later hmem
    simpa using hbehind later hmem
  refine ⟨front.reverse, idx, behind.reverse, ?_, of_decide_eq_true hidx, ?_, ?_⟩
  · rw [← reverse_reverse indexes.toList, hsplit]
    simp
  · intro later hmem
    exact not_le.mp (hlater later (mem_reverse.mp hmem))
  · rw [hsplit, findIdx?_append, findIdx?_eq_none_iff.mpr
      (fun later hmem ↦ decide_eq_false (hlater later hmem)), findIdx?_cons, hidx]
    simp

theorem seek_inBlob_refines (hindexes : w.indexes = indexes.toList) (hopened : w.closed = false)
    (hbytes : file.bytes = concatenation indexes.toList) (hidx : w.curidx = some idx)
    (hlist : w.indexes = before ++ idx :: w.idxiter) (hpos : idx.offset ≤ pos)
    (hinside : pos ≤ idx.offset + idx.blob.content.length) :
    Refines indexes { w with curfile := some ⟨idx.blob.content, (pos - idx.offset).toNat⟩ }
      { file with position := pos.toNat } := by
  refine ⟨hindexes, hopened, hbytes, .inBlob before idx _ hidx rfl hlist ?_ ?_⟩
  · omega
  · show pos.toNat = idx.offset + (pos - idx.offset).toNat
    omega

theorem seekTo_refines_of_empty (h : Refines indexes w file) (hempty : indexes.toList = [])
    (hpos : 0 ≤ pos) (hsize : pos ≤ file.bytes.length) :
    ∃ w', w.seekTo pos = .ok w' ∧ Refines indexes w' { file with position := pos.toNat } := by
  have hzero : pos = 0 := by
    rw [h.bytes_eq, hempty] at hsize
    exact le_antisymm (by simpa [concatenation] using hsize) hpos
  have hclosed : w.curfile = none ∧ w.curidx = none := by
    rcases h.position with ⟨hfile, hidx, -⟩ | ⟨_, _, _, -, -, hlist, -, -⟩
    · exact ⟨hfile, hidx⟩
    · rw [h.indexes_eq, hempty] at hlist
      simp at hlist
  refine ⟨w, ?_, h.indexes_eq, h.opened, h.bytes_eq, .drained hclosed.1 hclosed.2 ?_⟩
  · simp [ChunkedFileBlobIndexWrapper.seekTo, h.opened, hzero, h.indexes_eq, hempty]
  · simp [hzero, h.indexes_eq, hempty, concatenation]

theorem le_end_of_last (indexes : BlobIndexes) {before after : List FileBlobIndex}
    (hlist : indexes.toList = before ++ idx :: after)
    (hlater : ∀ i ∈ after, pos < i.offset) (hsize : pos ≤ (concatenation indexes.toList).length) :
    pos ≤ idx.offset + idx.blob.content.length := by
  have hcontiguous := indexes.contiguous
  rw [hlist] at hcontiguous
  have hoffset : idx.offset = (concatenation before).length := hcontiguous.offset_eq
  cases after with
  | nil =>
    rw [hlist, concatenation_append, concatenation_cons] at hsize
    simp only [concatenation, flatMap_nil, append_nil, length_append] at hsize hoffset
    omega
  | cons next rest =>
    rw [append_cons] at hcontiguous
    have hnext := hlater next mem_cons_self
    rw [hcontiguous.offset_eq, concatenation_append, concatenation_cons] at hnext
    simp only [concatenation, flatMap_nil, append_nil, length_append] at hnext hoffset
    omega

theorem seekTo_refines (h : Refines indexes w file) (hpos : 0 ≤ pos)
    (hsize : pos ≤ file.bytes.length) :
    ∃ w', w.seekTo pos = .ok w' ∧ Refines indexes w' { file with position := pos.toNat } := by
  by_cases hempty : indexes.toList = []
  · exact seekTo_refines_of_empty h hempty hpos hsize
  · obtain ⟨before, idx, after, hlist, hidx, hlater, hsearch⟩ :=
      exists_seek_index indexes hempty hpos
    have hinside : pos ≤ idx.offset + idx.blob.content.length :=
      le_end_of_last indexes hlist hlater (h.bytes_eq ▸ hsize)
    have htail : w.indexes.drop (w.indexes.length - (after.length + 1)) = idx :: after := by
      rw [h.indexes_eq, hlist, length_append, length_cons, Nat.add_sub_cancel, drop_left]
    have hnonneg : ¬pos < 0 := not_lt.mpr hpos
    rw [← h.indexes_eq] at hempty hsearch
    simp only [ChunkedFileBlobIndexWrapper.seekTo, h.opened, hnonneg, hempty, and_false, hsearch,
      htail, Bool.false_eq_true, if_false, head?_cons, Option.map_some]
    by_cases hsame : some idx.id = w.curidx.map fun i ↦ i.id
    · -- The wrapper is at the found index: it keeps its iterator.
      rw [if_pos hsame]
      rcases h.position with ⟨-, hnone, -⟩ | ⟨before', idx', pos', hcur, hfile, hlist', -, -⟩
      · rw [hnone] at hsame
        cases hsame
      · have hid : idx.id = idx'.id := by simpa [hcur] using hsame
        obtain rfl : idx = idx' :=
          inj_on_of_nodup_map indexes.nodup (by simp [hlist]) (by rw [← h.indexes_eq, hlist']; simp) hid
        have hrefines :=
          seek_inBlob_refines h.indexes_eq h.opened h.bytes_eq hcur hlist' hidx hinside
        simp only [hfile, hcur, BlobFile.seek] at hrefines ⊢
        exact ⟨_, rfl, hrefines⟩
    · rw [if_neg hsame]
      exact ⟨_, rfl, seek_inBlob_refines (w := ⟨w.indexes, w.curfile, some idx, after, false⟩)
        h.indexes_eq rfl h.bytes_eq rfl (h.indexes_eq.trans hlist) hidx hinside⟩

/-- `tell` answers the position. -/
theorem tell_refines (h : Refines indexes w file) : w.tell = .ok file.position := by
  rcases h.position with ⟨hfile, hidx, hend⟩ | ⟨before, idx, pos, hidx, hfile, -, -, hposition⟩
  · simp [ChunkedFileBlobIndexWrapper.tell, h.opened, hfile, hend, size_eq_length_concatenation]
  · simp [ChunkedFileBlobIndexWrapper.tell, h.opened, hfile, hidx, hposition]

/-- A seek inside the file, whatever its `whence`, moves to its target. -/
theorem seek_refines (h : Refines indexes w file) {whence : Whence}
    (hinside : file.Inside (.seek pos whence)) :
    ∃ w', w.seek pos whence = .ok w' ∧
      Refines indexes w' { file with position := (file.target pos whence).toNat } := by
  obtain ⟨w', hseek, hrefines⟩ := seekTo_refines h hinside.1 hinside.2
  refine ⟨w', ?_, hrefines⟩
  cases whence with
  | set => exact hseek
  | cur =>
    simp only [ChunkedFileBlobIndexWrapper.seek, tell_refines h]
    exact hseek
  | «end» =>
    simp only [ChunkedFileBlobIndexWrapper.seek, size_eq_length_concatenation, h.indexes_eq,
      ← h.bytes_eq]
    exact hseek

def wrapperRefinement (indexes : BlobIndexes) :
    Refinement ChunkedFileBlobIndexWrapper.operate FlatFile.operate FlatFile.Inside where
  related := Refines indexes
  step_related := by
    intro w file o h hinside
    cases o with
    | seek pos whence =>
      obtain ⟨w', hseek, hrefines⟩ := seek_refines h hinside
      exact ⟨w', by simp [ChunkedFileBlobIndexWrapper.operate, FlatFile.operate, hseek,
        Except.map], hrefines⟩
    | tell =>
      exact ⟨w, by simp [ChunkedFileBlobIndexWrapper.operate, FlatFile.operate, tell_refines h,
        Except.map], h⟩
    | read n =>
      by_cases hn : n < 0
      · obtain ⟨hbytes, hrefines⟩ := readToEnd_refines h
        refine ⟨w.readToEnd.2, ?_, ?_⟩
        · simp [ChunkedFileBlobIndexWrapper.operate, ChunkedFileBlobIndexWrapper.read, h.opened,
            hn, FlatFile.operate, FlatFile.readable, hbytes, Except.map]
        · simpa [FlatFile.operate, FlatFile.readable, hn] using hrefines
      · obtain ⟨hbytes, hrefines⟩ := readBytes_refines n.toNat h
        refine ⟨(w.readBytes n.toNat).2, ?_, ?_⟩
        · simp [ChunkedFileBlobIndexWrapper.operate, ChunkedFileBlobIndexWrapper.read, h.opened,
            hn, FlatFile.operate, FlatFile.readable, hbytes, Except.map]
        · simpa [FlatFile.operate, FlatFile.readable, hn] using hrefines

/-- The flat file of the indexes, at its beginning. -/
def BlobIndexes.flatFile (indexes : BlobIndexes) : FlatFile := ⟨concatenation indexes.toList, 0⟩

/-- `__init__` opens the wrapper at the beginning of the file. -/
theorem openWrapper_refines (indexes : BlobIndexes) :
    ∃ w, ChunkedFileBlobIndexWrapper.openWrapper indexes.toList = .ok w ∧
      Refines indexes w indexes.flatFile := by
  have hend : Refines indexes ⟨indexes.toList, none, none, [], false⟩
      ⟨concatenation indexes.toList, (concatenation indexes.toList).length⟩ :=
    ⟨rfl, rfl, rfl, .drained rfl rfl rfl⟩
  exact seekTo_refines hend le_rfl (Int.natCast_nonneg _)

/-- A reader of the file: the wrapper is opened, and the operations follow. -/
def readFile (indexes : List FileBlobIndex) (ops : List FileOperation) :
    Except FileError (List Answer) :=
  match ChunkedFileBlobIndexWrapper.openWrapper indexes with
  | .error e => .error e
  | .ok w => outputs ChunkedFileBlobIndexWrapper.operate w ops

/-- Assumes: every seek stays inside the file. The wrapper answers every sequence of operations as
the flat file does, and no operation fails. -/
theorem readFile_eq_flatFile (indexes : BlobIndexes) (ops : List FileOperation)
    (hops : Admits FlatFile.operate FlatFile.Inside indexes.flatFile ops) :
    readFile indexes.toList ops = .ok (pureOutputs FlatFile.operate indexes.flatFile ops) := by
  obtain ⟨w, hopen, hrefines⟩ := openWrapper_refines indexes
  rw [readFile, hopen]
  exact (wrapperRefinement indexes).outputs_eq hrefines hops

/-- Two blobs around an empty one: a seek from the end, a read over the empty blob, and a seek back
after the end was reached. -/
theorem readFile_eq_flatFile_around_empty_blob :
    let blob := createBlobFromFile
    let indexes := BlobIndexes.ofBlobs id Function.injective_id [blob [1, 2], blob [], blob [3]]
    let ops : List FileOperation :=
      [.seek (-2) .end, .read 5, .tell, .seek 0 .set, .read (-1), .seek (-3) .cur, .tell]
    readFile indexes.toList ops =
      .ok [.nothing, .bytes [2, 3], .position 3, .nothing, .bytes [1, 2, 3], .nothing,
        .position 0] := by
  exact readFile_eq_flatFile _ _ (by decide)

theorem concatenation_putfile (rowId : ℕ → ℕ) {blobSize : ℕ} (hpos : 0 < blobSize)
    (fileobj : List UInt8) : concatenation (putfile rowId blobSize fileobj) = fileobj := by
  have hblobs (count offset : ℕ) (blobs : List FileBlob) :
      concatenation (createBlobIndexes rowId count offset blobs) =
        blobs.flatMap fun blob ↦ blob.content := by
    induction blobs generalizing count offset with
    | nil => rfl
    | cons blob rest ih => rw [createBlobIndexes, concatenation_cons, ih, flatMap_cons]
  obtain ⟨blobs, heq, hcontent⟩ := putfileLoop_eq rowId blobSize 0 0 fileobj
  rw [putfile, heq, hblobs, hcontent hpos]

/-- Assumes: distinct rows, a positive blob size, and seeks inside the file. A file that `putfile`
has written in pieces answers every sequence of operations as its contents would. -/
theorem readFile_putfile {rowId : ℕ → ℕ} (hrow : Function.Injective rowId) {blobSize : ℕ}
    (hpos : 0 < blobSize) (fileobj : List UInt8) (ops : List FileOperation)
    (hops : Admits FlatFile.operate FlatFile.Inside ⟨fileobj, 0⟩ ops) :
    size (putfile rowId blobSize fileobj) = fileobj.length ∧
      readFile (putfile rowId blobSize fileobj) ops =
        .ok (pureOutputs FlatFile.operate ⟨fileobj, 0⟩ ops) := by
  have hbytes := concatenation_putfile rowId hpos fileobj
  refine ⟨by rw [size_eq_length_concatenation, hbytes], ?_⟩
  obtain ⟨w, hopen, hrefines⟩ := openWrapper_refines (.ofFile rowId hrow blobSize fileobj)
  have hflat : (BlobIndexes.ofFile rowId hrow blobSize fileobj).flatFile = ⟨fileobj, 0⟩ :=
    congrArg (fun bytes ↦ (⟨bytes, 0⟩ : FlatFile)) hbytes
  rw [hflat] at hrefines
  unfold readFile
  rw [show putfile rowId blobSize fileobj =
    (BlobIndexes.ofFile rowId hrow blobSize fileobj).toList from rfl, hopen]
  exact (wrapperRefinement _).outputs_eq hrefines hops

/-- Three bytes in pieces of two. -/
theorem readFile_putfile_three :
    size (putfile id 2 [1, 2, 3]) = 3 ∧
      readFile (putfile id 2 [1, 2, 3]) [.seek (-2) .end, .read (-1), .tell] =
        .ok [.nothing, .bytes [2, 3], .position 3] := by
  exact readFile_putfile Function.injective_id (by decide) [1, 2, 3] _ (by decide)

end Sentry.Files
