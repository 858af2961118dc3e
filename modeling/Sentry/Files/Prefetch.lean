import Sentry.Files.ChunkedFile
import Sentry.Library.Machine

/-!
# Prefetching a file that is stored in blobs

`ChunkedFileBlobIndexWrapper._prefetch`. The tasks of a thread pool write the blobs into a map of
the whole file, each to its own bytes, so their order does not matter (`runTask_filled`). A task
that raises leaves zeros, and nobody asks for its result; the file is right exactly if only zeros
were missed (`allOrNothing_iff`).
-/

namespace Sentry.Files

open Library List

/-- `mem[offset : offset + len(chunk)] = chunk`, inside of the map. -/
def writeAt (mem : List UInt8) (offset : ℕ) (chunk : List UInt8) : List UInt8 :=
  mem.take offset ++ chunk ++ mem.drop (offset + chunk.length)

/-- The bytes that `fetch_file` reads at once. -/
def chunkSize : ℕ := 65535

/-- A task of the pool, which calls `fetch_file`. After some number of reads the next one raises;
with 0 it is `getfile` or the first read. -/
structure FetchFile where
  offset : ℕ
  file : BlobFile
  raisesAfter : Option ℕ
  done : Bool

namespace FetchFile

/-- One round of the loop of `fetch_file`. -/
def step (mem : List UInt8) (task : FetchFile) : List UInt8 × FetchFile :=
  if task.done then (mem, task)
  else
    match task.raisesAfter with
    | some 0 => (mem, { task with done := true })
    | raisesAfter =>
      let (chunk, file) := task.file.read chunkSize
      if chunk = [] then (mem, { task with done := true })
      else
        (writeAt mem task.offset chunk,
          { offset := task.offset + chunk.length
            file := file
            raisesAfter := raisesAfter.map (· - 1)
            done := false })

end FetchFile

/-- The map and the tasks. -/
structure Prefetch where
  mem : List UInt8
  tasks : List FetchFile

namespace Prefetch

def runTask (s : Prefetch) (i : ℕ) : Prefetch :=
  match s.tasks[i]? with
  | none => s
  | some task =>
    let (mem, task) := task.step s.mem
    { mem := mem, tasks := s.tasks.set i task }

/-- All tasks are done, and the `with` of the pool is left. -/
def Finished (s : Prefetch) : Prop := ∀ task ∈ s.tasks, task.done

instance (s : Prefetch) : Decidable s.Finished :=
  inferInstanceAs (Decidable (∀ task ∈ s.tasks, task.done = true))

/-- What the constructor returns or raises when the pool is finished. The exceptions of the tasks
are in their futures. -/
def result (s : Prefetch) : Except FileError (List UInt8) := .ok s.mem

end Prefetch

/-- `_prefetch`, with the rounds of the tasks in the order in which they run, and the reads after
which the fetch of an index raises. -/
def prefetching (indexes : List FileBlobIndex) (raisesAfter : FileBlobIndex → Option ℕ) :
    Machine Prefetch ℕ where
  init :=
    { mem := List.replicate (size indexes) 0
      tasks :=
        if size indexes = 0 then []
        else indexes.map fun idx ↦ ⟨idx.offset, idx.blob.getfile, raisesAfter idx, false⟩ }
  step := Prefetch.runTask

/-- The constructor raises, or the file has all the bytes. -/
def AllOrNothing (indexes : List FileBlobIndex) (result : Except FileError (List UInt8)) : Prop :=
  ∀ content, result = .ok content → content = concatenation indexes

/-- The bytes of a blob that are not read before its fetch raises. -/
def missedBytes (raisesAfter : FileBlobIndex → Option ℕ) (idx : FileBlobIndex) : List UInt8 :=
  match raisesAfter idx with
  | none => []
  | some reads => idx.blob.content.drop (chunkSize * reads)

namespace FetchFile

/-- The bytes of the map that are the task's own: what it has written, and zeros. -/
def segment (task : FetchFile) : List UInt8 :=
  task.file.content.take task.file.position ++
    List.replicate (task.file.content.length - task.file.position) 0

def written (task : FetchFile) : List UInt8 :=
  match task.raisesAfter with
  | none => task.file.content
  | some reads => task.file.content.take (task.file.position + chunkSize * reads)

/-- The task writes behind what it has written, and a task that is done has written it all. -/
structure Writes (start : ℕ) (task : FetchFile) : Prop where
  offset_eq : task.offset = start + task.file.position
  position_le : task.file.position ≤ task.file.content.length
  done : task.done → task.file.content.take task.file.position = task.written

theorem length_segment (task : FetchFile) :
    task.segment.length = task.file.content.length := by
  rw [segment, length_append, length_take, length_replicate]
  omega

end FetchFile

theorem writeAt_zeros (before written chunk after : List UInt8) {zeros : ℕ}
    (hlength : chunk.length ≤ zeros) :
    writeAt (before ++ (written ++ List.replicate zeros 0) ++ after)
        (before.length + written.length) chunk =
      before ++ ((written ++ chunk) ++ List.replicate (zeros - chunk.length) 0) ++ after := by
  have hsplit : before ++ (written ++ List.replicate zeros 0) ++ after =
      (before ++ written) ++ (List.replicate zeros 0 ++ after) := by
    simp only [append_assoc]
  rw [writeAt, hsplit, ← length_append, take_left, drop_length_add_append,
    drop_append_of_le_length (by rwa [length_replicate]), drop_replicate]
  simp only [append_assoc]

namespace FetchFile

variable {task : FetchFile} {start : ℕ}

/-- A round of a task writes only its own bytes. -/
structure StepsWithin (before after : List UInt8) (task : FetchFile)
    (result : List UInt8 × FetchFile) : Prop where
  mem_eq : result.1 = before ++ result.2.segment ++ after
  content_eq : result.2.file.content = task.file.content
  written_eq : result.2.written = task.written
  writes : Writes before.length result.2

theorem written_advance (h : task.raisesAfter ≠ some 0) (chunk : List UInt8)
    (hchunk : chunk = (task.file.content.drop task.file.position).take chunkSize) (offset : ℕ) :
    written
        { offset := offset
          file := { task.file with position := task.file.position + chunk.length }
          raisesAfter := task.raisesAfter.map (· - 1)
          done := false } = task.written := by
  rw [written, written]
  cases hraises : task.raisesAfter with
  | none => rfl
  | some reads =>
    have hpos : reads ≠ 0 := by
      rintro rfl
      exact h hraises
    obtain ⟨rest, rfl⟩ := Nat.exists_eq_succ_of_ne_zero hpos
    show task.file.content.take (task.file.position + chunk.length + chunkSize * rest) =
      task.file.content.take (task.file.position + chunkSize * (rest + 1))
    have hlength : chunk.length =
        min chunkSize (task.file.content.length - task.file.position) := by
      rw [hchunk, length_take, length_drop]
    rcases le_total chunkSize (task.file.content.length - task.file.position) with hfull | hlast
    · rw [hlength, min_eq_left hfull]
      congr 1
      rw [Nat.mul_succ]
      omega
    · -- the chunk is the last one, and the file ends before both
      rw [hlength, min_eq_right hlast, take_of_length_le (by omega),
        take_of_length_le (by rw [Nat.mul_succ]; omega)]

def chunk (task : FetchFile) : List UInt8 :=
  (task.file.content.drop task.file.position).take chunkSize

theorem step_of_raises (mem : List UInt8) (hdone : task.done = false)
    (hraises : task.raisesAfter = some 0) : task.step mem = (mem, { task with done := true }) := by
  rw [step, hdone, if_neg Bool.false_ne_true, hraises]
  rfl

theorem take_append_chunk (task : FetchFile) :
    task.file.content.take task.file.position ++ task.chunk =
      task.file.content.take (task.file.position + task.chunk.length) := by
  have hprefix := prefix_iff_eq_take.mp
    ( take_prefix chunkSize (task.file.content.drop task.file.position))
  rw [take_add]
  exact congrArg _ hprefix

theorem step_of_reads (mem : List UInt8) (hdone : task.done = false)
    (hraises : task.raisesAfter ≠ some 0) :
    task.step mem =
      if task.chunk = [] then (mem, { task with done := true })
      else
        (writeAt mem task.offset task.chunk,
          { offset := task.offset + task.chunk.length
            file := { task.file with position := task.file.position + task.chunk.length }
            raisesAfter := task.raisesAfter.map (· - 1)
            done := false }) := by
  rw [step, hdone, if_neg Bool.false_ne_true]
  cases hreads : task.raisesAfter with
  | none => rfl
  | some reads =>
    cases reads with
    | zero => exact absurd hreads hraises
    | succ rest => rfl

theorem step_within (before after : List UInt8) (h : Writes before.length task) :
    StepsWithin before after task (task.step (before ++ task.segment ++ after)) := by
  have hoffset := h.offset_eq
  have hposition := h.position_le
  by_cases hdone : task.done = true
  · rw [step, if_pos hdone]
    exact ⟨rfl, rfl, rfl, h⟩
  rw [Bool.not_eq_true] at hdone
  by_cases hraises : task.raisesAfter = some 0
  · rw [step_of_raises _ hdone hraises]
    refine ⟨rfl, rfl, rfl, hoffset, hposition, fun _ ↦ ?_⟩
    rw [written, hraises]
    rfl
  rw [step_of_reads _ hdone hraises]
  split_ifs with hchunk
  · refine ⟨rfl, rfl, rfl, hoffset, hposition, fun _ ↦ ?_⟩
    have hend : task.file.content.length ≤ task.file.position := by
      rcases take_eq_nil_iff.mp hchunk with hzero | hnil
      · nomatch hzero
      · exact drop_eq_nil_iff.mp hnil
    show task.file.content.take task.file.position = task.written
    rw [written, take_of_length_le hend]
    cases task.raisesAfter with
    | none => rfl
    | some reads => exact (take_of_length_le (by omega)).symm
  · have hlength : task.chunk.length ≤ task.file.content.length - task.file.position := by
      rw [chunk, length_take, length_drop]
      exact min_le_right _ _
    have htake : (task.file.content.take task.file.position).length = task.file.position := by
      rw [length_take, min_eq_left hposition]
    refine ⟨?_, rfl, written_advance hraises _ rfl _, ?_, ?_, fun hfalse ↦ nomatch hfalse⟩
    · show writeAt (before ++ task.segment ++ after) task.offset task.chunk = _
      have hwrite := writeAt_zeros before (task.file.content.take task.file.position) task.chunk
        after hlength
      rw [htake, ← hoffset, take_append_chunk, Nat.sub_sub] at hwrite
      exact hwrite
    · show task.offset + task.chunk.length = before.length + (task.file.position + _)
      omega
    · show task.file.position + task.chunk.length ≤ task.file.content.length
      omega

end FetchFile

/-- The tasks write one behind the other. -/
def Placed : ℕ → List FetchFile → Prop
  | _, [] => True
  | start, task :: rest => task.Writes start ∧ Placed (start + task.file.content.length) rest

/-- The map is what the tasks have written, and they will have written what is told at the start. -/
structure Filled (told : List (List UInt8 × List UInt8)) (s : Prefetch) : Prop where
  mem_eq : s.mem = s.tasks.flatMap (·.segment)
  placed : Placed 0 s.tasks
  told_eq : s.tasks.map (fun task ↦ (task.file.content, task.written)) = told

theorem placed_append (start : ℕ) (first second : List FetchFile) :
    Placed start (first ++ second) ↔
      Placed start first ∧ Placed (start + (first.flatMap (·.file.content)).length) second := by
  induction first generalizing start with
  | nil => simp [Placed]
  | cons task rest ih => simp [Placed, ih, and_assoc, Nat.add_assoc]

theorem length_segments (tasks : List FetchFile) :
    (tasks.flatMap (·.segment)).length = (tasks.flatMap (·.file.content)).length := by
  induction tasks with
  | nil => rfl
  | cons task rest ih =>
    rw [flatMap_cons, flatMap_cons, length_append, length_append, ih,
      FetchFile.length_segment]

theorem exists_split {α : Type*} {xs : List α} {i : ℕ} {x : α} (h : xs[i]? = some x) :
    ∃ before after, xs = before ++ x :: after ∧ ∀ y, xs.set i y = before ++ y :: after := by
  obtain ⟨hi, hget⟩ := List.getElem?_eq_some_iff.mp h
  refine ⟨xs.take i, xs.drop (i + 1), ?_, fun y ↦ ?_⟩
  · rw [← hget, getElem_cons_drop, take_append_drop]
  · rw [set_eq_take_append_cons_drop, if_pos hi]

theorem runTask_filled {told : List (List UInt8 × List UInt8)} {s : Prefetch}
    (h : Filled told s) (i : ℕ) : Filled told (s.runTask i) := by
  rw [Prefetch.runTask]
  cases htask : s.tasks[i]? with
  | none => exact h
  | some task =>
    obtain ⟨before, after, hsplit, hset⟩ := exists_split htask
    obtain ⟨hmem, hplaced, htold⟩ := h
    rw [hsplit] at hmem hplaced htold
    obtain ⟨hbefore, hwrites, hafter⟩ := (placed_append _ _ _).mp hplaced
    rw [Nat.zero_add, ← length_segments] at hwrites
    rw [flatMap_append, flatMap_cons, ← append_assoc] at hmem
    have hstep := FetchFile.step_within (before.flatMap (·.segment)) (after.flatMap (·.segment))
      hwrites
    rw [← hmem] at hstep
    obtain ⟨hnext, hcontent, hwritten, hwritesNext⟩ := hstep
    dsimp only
    rw [hset]
    constructor
    · rw [hnext, flatMap_append, flatMap_cons, ← append_assoc]
    · rw [placed_append, Placed, hcontent, Nat.zero_add, ← length_segments]
      rw [Nat.zero_add, ← length_segments] at hafter
      exact ⟨hbefore, hwritesNext, hafter⟩
    · rw [← htold, map_append, map_cons, map_append, map_cons, hcontent, hwritten]

section Runs

variable (indexes : List FileBlobIndex) (raisesAfter : FileBlobIndex → Option ℕ)

def writtenBytes (idx : FileBlobIndex) : List UInt8 :=
  match raisesAfter idx with
  | none => idx.blob.content
  | some reads => idx.blob.content.take (chunkSize * reads)

theorem writtenBytes_append_missedBytes (idx : FileBlobIndex) :
    writtenBytes raisesAfter idx ++ missedBytes raisesAfter idx = idx.blob.content := by
  rw [writtenBytes, missedBytes]
  cases raisesAfter idx with
  | none => exact append_nil _
  | some reads => exact take_append_drop _ _

def taskOf (idx : FileBlobIndex) : FetchFile :=
  ⟨idx.offset, idx.blob.getfile, raisesAfter idx, false⟩

theorem written_taskOf (idx : FileBlobIndex) :
    (taskOf raisesAfter idx).written = writtenBytes raisesAfter idx := by
  rw [FetchFile.written, writtenBytes, taskOf]
  cases raisesAfter idx with
  | none => rfl
  | some reads =>
    show idx.blob.content.take (0 + chunkSize * reads) = _
    rw [Nat.zero_add]

theorem placed_tasks {start : ℕ} {indexes : List FileBlobIndex} (h : Contiguous start indexes) :
    Placed start (indexes.map (taskOf raisesAfter)) := by
  induction indexes generalizing start with
  | nil => trivial
  | cons idx rest ih =>
    obtain ⟨hoffset, hrest⟩ := h
    refine ⟨⟨hoffset, Nat.zero_le _, fun hfalse ↦ nomatch hfalse⟩, ?_⟩
    rw [idx.blob.size_eq] at hrest
    exact ih hrest

theorem segments_tasks :
    (indexes.map (taskOf raisesAfter)).flatMap (·.segment) = List.replicate (size indexes) 0 := by
  induction indexes with
  | nil => rfl
  | cons idx rest ih =>
    have hsize : size (idx :: rest) = idx.blob.content.length + size rest := by
      simp [size, idx.blob.size_eq]
    rw [map_cons, flatMap_cons, ih, hsize, replicate_add]
    rfl

theorem run_filled (indexes : BlobIndexes) (hsize : size indexes.toList ≠ 0) (rounds : List ℕ) :
    Filled (indexes.toList.map fun idx ↦ (idx.blob.content, writtenBytes raisesAfter idx))
      ((prefetching indexes.toList raisesAfter).run rounds) := by
  have htasks : (prefetching indexes.toList raisesAfter).init.tasks =
      indexes.toList.map (taskOf raisesAfter) := if_neg hsize
  have hinit : Filled (indexes.toList.map fun idx ↦
      (idx.blob.content, writtenBytes raisesAfter idx))
      (prefetching indexes.toList raisesAfter).init := by
    constructor
    · rw [htasks, segments_tasks]
      rfl
    · rw [htasks]
      exact placed_tasks raisesAfter indexes.contiguous
    · rw [htasks, map_map]
      refine map_congr_left fun idx _ ↦ ?_
      rw [Function.comp_apply, written_taskOf]
      rfl
  exact (prefetching indexes.toList raisesAfter).run_invariant hinit
    (fun _ i h ↦ runTask_filled h i) rounds

theorem run_mem_of_size_eq_zero (hsize : size indexes = 0) (rounds : List ℕ) :
    ((prefetching indexes raisesAfter).run rounds).mem = [] := by
  have hinit : (prefetching indexes raisesAfter).init = ⟨[], []⟩ := by
    rw [prefetching, hsize, if_pos rfl, replicate_zero]
  have hrun : (prefetching indexes raisesAfter).run rounds = ⟨[], []⟩ :=
    (prefetching indexes raisesAfter).run_invariant (I := fun s ↦ s = ⟨[], []⟩) hinit
      (fun s i h ↦ by rw [h]; rfl) rounds
  rw [hrun]

end Runs

theorem Placed.exists_writes {start : ℕ} {tasks : List FetchFile} (h : Placed start tasks)
    {task : FetchFile} (htask : task ∈ tasks) : ∃ begin, task.Writes begin := by
  induction tasks generalizing start with
  | nil => nomatch htask
  | cons first rest ih =>
    rcases mem_cons.mp htask with rfl | htask
    · exact ⟨start, h.1⟩
    · exact ih h.2 htask

theorem Filled.mem_of_finished {told : List (List UInt8 × List UInt8)} {s : Prefetch}
    (h : Filled told s) (hfinished : s.Finished) :
    s.mem = told.flatMap fun bytes ↦
      bytes.2 ++ List.replicate (bytes.1.length - bytes.2.length) 0 := by
  rw [h.mem_eq, ← h.told_eq, flatMap_map]
  refine flatMap_congr fun task htask ↦ ?_
  obtain ⟨start, hwrites⟩ := h.placed.exists_writes htask
  have hwritten := hwrites.done (hfinished task htask)
  have hlength : task.written.length = task.file.position := by
    rw [← hwritten, length_take, min_eq_left hwrites.position_le]
  rw [FetchFile.segment, hwritten, hlength]

theorem flatMap_eq_iff {α β : Type*} {f g : α → List β} {xs : List α}
    (h : ∀ x ∈ xs, (f x).length = (g x).length) :
    xs.flatMap f = xs.flatMap g ↔ ∀ x ∈ xs, f x = g x := by
  induction xs with
  | nil => simp
  | cons x rest ih =>
    obtain ⟨hx, hrest⟩ := forall_mem_cons.mp h
    rw [flatMap_cons, flatMap_cons, forall_mem_cons, ← ih hrest]
    exact ⟨fun heq ↦ append_inj heq hx, fun heq ↦ by rw [heq.1, heq.2]⟩

theorem append_replicate_eq_iff (written missed : List UInt8) :
    written ++ List.replicate ((written ++ missed).length - written.length) 0 =
      written ++ missed ↔ ∀ byte ∈ missed, byte = 0 := by
  rw [append_cancel_left_eq, length_append, Nat.add_sub_cancel_left, eq_comm,
    eq_replicate_iff, and_iff_right rfl]

/-- Assumes: the pool has finished, with the rounds of its tasks in any order. The constructor
raises or yields a file with all the bytes, if and only if all bytes that the fetches which raise
have missed are zero. -/
theorem allOrNothing_iff (indexes : BlobIndexes) (raisesAfter : FileBlobIndex → Option ℕ)
    (rounds : List ℕ) (hfinished : ((prefetching indexes.toList raisesAfter).run rounds).Finished) :
    AllOrNothing indexes.toList ((prefetching indexes.toList raisesAfter).run rounds).result ↔
      ∀ idx ∈ indexes.toList, ∀ byte ∈ missedBytes raisesAfter idx, byte = 0 := by
  have hresult : AllOrNothing indexes.toList
      ((prefetching indexes.toList raisesAfter).run rounds).result ↔
        ((prefetching indexes.toList raisesAfter).run rounds).mem =
          concatenation indexes.toList := by
    constructor
    · intro h
      exact h _ rfl
    · intro h content hcontent
      rw [← h]
      exact (Except.ok.inj hcontent).symm
  rw [hresult]
  by_cases hsize : size indexes.toList = 0
  · have hnil : concatenation indexes.toList = [] := by
      rw [← length_eq_zero_iff, ← size_eq_length_concatenation, hsize]
    rw [run_mem_of_size_eq_zero _ _ hsize, hnil]
    refine iff_of_true rfl fun idx hidx byte hbyte ↦ ?_
    have hempty := flatMap_eq_nil_iff.mp hnil idx hidx
    rw [← writtenBytes_append_missedBytes raisesAfter idx] at hempty
    rw [(append_eq_nil_iff.mp hempty).2] at hbyte
    nomatch hbyte
  · rw [(run_filled raisesAfter indexes hsize rounds).mem_of_finished hfinished,
      flatMap_map, concatenation]
    have hpadded (idx : FileBlobIndex) :
        writtenBytes raisesAfter idx ++ List.replicate
            (idx.blob.content.length - (writtenBytes raisesAfter idx).length) 0 =
          idx.blob.content ↔ ∀ byte ∈ missedBytes raisesAfter idx, byte = 0 := by
      rw [← writtenBytes_append_missedBytes raisesAfter idx]
      exact append_replicate_eq_iff _ _
    rw [flatMap_eq_iff]
    · exact forall₂_congr fun idx _ ↦ hpadded idx
    · intro idx _
      rw [← writtenBytes_append_missedBytes raisesAfter idx]
      simp

/-- Two blobs. -/
def twoBlobs : BlobIndexes :=
  BlobIndexes.ofBlobs id Function.injective_id [createBlobFromFile [1, 2], createBlobFromFile [3]]

theorem allOrNothing_iff_twoBlobs :
    AllOrNothing twoBlobs.toList
        ((prefetching twoBlobs.toList fun _ ↦ none).run [1, 0, 0, 1]).result ↔
      ∀ idx ∈ twoBlobs.toList, ∀ byte ∈ missedBytes (fun _ ↦ none) idx, byte = 0 :=
  allOrNothing_iff twoBlobs (fun _ ↦ none) [1, 0, 0, 1] (by decide +kernel)

/-- The fetch of the second blob raises, and its byte is zero. -/
theorem not_allOrNothing :
    ((prefetching twoBlobs.toList fun idx ↦ if idx.id = 1 then some 0 else none).run
      [0, 1, 0]).Finished ∧
    ¬ AllOrNothing twoBlobs.toList ((prefetching twoBlobs.toList fun idx ↦
      if idx.id = 1 then some 0 else none).run [0, 1, 0]).result := by
  have hresult : ((prefetching twoBlobs.toList fun idx ↦
      if idx.id = 1 then some 0 else none).run [0, 1, 0]).mem = [1, 2, 0] := by
    decide +kernel
  refine ⟨by decide +kernel, fun h ↦ ?_⟩
  have hcontent := h _ rfl
  rw [hresult] at hcontent
  exact absurd hcontent (by decide +kernel)

end Sentry.Files
