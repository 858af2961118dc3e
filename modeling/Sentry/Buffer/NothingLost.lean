import Sentry.Buffer.RedisBuffer
import Mathlib.Data.List.Nodup
import Mathlib.Algebra.BigOperators.Group.List.Basic
import Mathlib.Algebra.Order.Group.Nat

/-!
# Nothing is lost from the buffer

Every increment is in the hash of its key or in one call of `_process`, and the key of a hash is
pending or in the batch of a task that is not done with it (`NothingLost`). Deleting a hash,
dropping a locked key and removing the keys of a sweep keep this exactly if they are `Safe`, and so
nothing is lost in a run exactly if every step of it is safe (`nothingLost_iff`).
-/

namespace Sentry.Buffer

open List Function

variable {Key Column Extra : Type}

/-! ### Statements -/

/-- The amount of an increment for a column. -/
def Increment.amount [DecidableEq Column] (increment : Increment Column) (column : Column) : ℤ :=
  ((increment.columns.filter fun entry ↦ entry.1 = column).map Prod.snd).sum

def BufferHash.SumsUp [DecidableEq Column] (hash : BufferHash Column Extra) : Prop :=
  ∀ column, (hash.counters column).getD 0 =
    (hash.increments.map fun increment ↦ increment.amount column).sum

def BufferTask.unfinished (task : BufferTask Key Column Extra) : List Key :=
  match task.current with
  | some (key, .locked) | some (key, .read _) | some (key, .removed _) => key :: task.keys
  | _ => task.keys

/-- The increments of the call of `_process` that a task is about to make, after it has deleted the
hash. -/
def BufferTask.held (task : BufferTask Key Column Extra) : List ℕ :=
  match task.current with
  | some (_, .deleted values) => idsOf values
  | _ => []

/-- The increments of a call of `_process`. -/
def calledIds (call : Key × BufferHash Column Extra) : List ℕ := idsOf (some call.2)

def batched (s : BufferState Key Column Extra) : List Key :=
  s.queued.flatten ++ s.running.flatMap BufferTask.unfinished

structure NothingLost [DecidableEq Column] (s : BufferState Key Column Extra) : Prop where
  accounted : ∀ n key, s.issued[n]? = some key →
    (idsOf (s.hashes key)).count n + (s.running.flatMap BufferTask.held).count n +
      (s.calls.flatMap calledIds).count n = 1
  sums : ∀ call ∈ s.calls, call.2.SumsUp
  found : ∀ key, (s.hashes key).isSome → key ∈ s.pending ∨ key ∈ batched s

/-- The condition on a step. -/
def Safe [DecidableEq Key] (s : BufferState Key Column Extra) : BufferEvent Key Column Extra → Prop
  | .sweep =>
    match s.sweep with
    | .working (.zrem keys :: _) _ => ∀ key ∈ keys, (s.hashes key).isSome → key ∈ batched s
    | _ => True
  | .task index =>
    match s.running[index]? with
    | some ⟨some (key, .removed values), _⟩ => idsOf (s.hashes key) = idsOf values
    | some ⟨none, key :: keys⟩ => s.locked key = true → (s.hashes key).isSome →
      key ∈ s.pending ∨ key ∈ batched { s with
        running := s.running.take index ++ [⟨none, keys⟩] ++ s.running.drop (index + 1) }
    | _ => True
  | _ => True

/-! ### The invariant -/

def BufferTask.currentKeys (task : BufferTask Key Column Extra) : List Key :=
  match task.current with
  | some (key, _) => [key]
  | none => []

def BufferTask.Ok [DecidableEq Column] (s : BufferState Key Column Extra)
    (task : BufferTask Key Column Extra) : Prop :=
  match task.current with
  | some (key, .read values) | some (key, .removed values) =>
    (∃ more, idsOf (s.hashes key) = idsOf values ++ more) ∧ ∀ hash ∈ values, hash.SumsUp
  | some (_, .deleted values) => ∀ hash ∈ values, hash.SumsUp
  | _ => True

structure BufferInvariant [DecidableEq Column] (s : BufferState Key Column Extra) : Prop where
  nothingLost : NothingLost s
  issued_of_mem : ∀ key, ∀ n ∈ idsOf (s.hashes key), s.issued[n]? = some key
  lt_of_mem_held : ∀ n ∈ s.running.flatMap BufferTask.held, n < s.issued.length
  lt_of_mem_calls : ∀ n ∈ s.calls.flatMap calledIds, n < s.issued.length
  nodup : (s.running.flatMap BufferTask.currentKeys).Nodup
  locked : ∀ key ∈ s.running.flatMap BufferTask.currentKeys, s.locked key = true
  ok : ∀ task ∈ s.running, task.Ok s
  sums : ∀ key, ∀ hash ∈ s.hashes key, hash.SumsUp

variable {s s' : BufferState Key Column Extra} {task : BufferTask Key Column Extra}
  {before after tasks : List (BufferTask Key Column Extra)}

/-- The parts of the tasks, when other tasks take the place of one. -/
theorem perm_running {β : Type} {part : BufferTask Key Column Extra → List β} {a b : List β}
    (hrunning : s.running = before ++ task :: after)
    (h : (a ++ tasks.flatMap part).Perm (b ++ part task)) :
    (a ++ (before ++ tasks ++ after).flatMap part).Perm (b ++ s.running.flatMap part) := by
  simp only [hrunning, flatMap_append, flatMap_cons, append_assoc]
  refine (perm_append_comm_assoc _ _ _).trans (.trans ?_ (perm_append_comm_assoc _ _ _))
  rw [← append_assoc a, ← append_assoc b]
  exact (h.append_right _).append_left _

theorem mem_running (hrunning : s.running = before ++ task :: after) : task ∈ s.running := by
  rw [hrunning]
  exact mem_append_right _ mem_cons_self

theorem mem_replaced {other : BufferTask Key Column Extra}
    (hrunning : s.running = before ++ task :: after) (h : other ∈ before ++ tasks ++ after) :
    other ∈ tasks ∨ other ∈ before ++ after ∧ other ∈ s.running := by
  simp only [hrunning, mem_append, mem_cons] at h ⊢
  tauto

theorem mem_batched_of_perm {finished : List Key} {key : Key} (hmem : key ∈ batched s)
    (hqueued : s'.queued = s.queued)
    (h : (finished ++ s'.running.flatMap BufferTask.unfinished).Perm
      (s.running.flatMap BufferTask.unfinished))
    (hkey : key ∉ finished) : key ∈ batched s' := by
  rw [batched, hqueued]
  refine mem_append.mpr ((mem_append.mp hmem).imp_right fun hrunning ↦ ?_)
  exact (mem_append.mp (h.symm.subset hrunning)).resolve_left hkey

variable [DecidableEq Column]

theorem BufferTask.ok_congr (hhashes : s'.hashes = s.hashes) : task.Ok s' ↔ task.Ok s := by
  rw [BufferTask.Ok, BufferTask.Ok, hhashes]

/-- A step that leaves the hashes as they are, and lets tasks hand increments to calls. -/
theorem BufferInvariant.of_perm (hs : BufferInvariant s) (hhashes : s'.hashes = s.hashes)
    (hissued : s'.issued = s.issued)
    (hgiven : (s'.running.flatMap BufferTask.held ++ s'.calls.flatMap calledIds).Perm
      (s.running.flatMap BufferTask.held ++ s.calls.flatMap calledIds))
    (hsums : ∀ call ∈ s'.calls, call.2.SumsUp)
    (hfound : ∀ key, (s.hashes key).isSome → key ∈ s'.pending ∨ key ∈ batched s')
    (hnodup : (s'.running.flatMap BufferTask.currentKeys).Nodup)
    (hlocked : ∀ key ∈ s'.running.flatMap BufferTask.currentKeys, s'.locked key = true)
    (hok : ∀ task ∈ s'.running, task.Ok s) : BufferInvariant s' := by
  have hlt : ∀ n ∈ s'.running.flatMap BufferTask.held ++ s'.calls.flatMap calledIds,
      n < s'.issued.length := by
    intro n hn
    rw [hissued]
    exact (mem_append.mp (hgiven.subset hn)).elim (hs.lt_of_mem_held n) (hs.lt_of_mem_calls n)
  refine ⟨⟨fun n key hn ↦ ?_, hsums, hhashes ▸ hfound⟩, ?_,
    fun n hn ↦ hlt n (mem_append_left _ hn), fun n hn ↦ hlt n (mem_append_right _ hn),
    hnodup, hlocked, fun task htask ↦ (BufferTask.ok_congr hhashes).mpr (hok task htask),
    hhashes ▸ hs.sums⟩
  · have haccounted := hs.nothingLost.accounted n key (hissued ▸ hn)
    have hcount := hgiven.count_eq n
    rw [count_append, count_append] at hcount
    rw [hhashes]
    omega
  · rw [hissued, hhashes]
    exact hs.issued_of_mem

theorem BufferInvariant.of_found {pending : List Key} {queued : List (List Key)}
    {sweep : Sweep Key} (hs : BufferInvariant s)
    (hfound : ∀ key, (s.hashes key).isSome → key ∈ pending ∨
      key ∈ batched { s with pending := pending, queued := queued, sweep := sweep }) :
    BufferInvariant { s with pending := pending, queued := queued, sweep := sweep } :=
  hs.of_perm rfl rfl (.refl _) hs.nothingLost.sums hfound hs.nodup hs.locked hs.ok

theorem BufferInvariant.replace (hs : BufferInvariant s)
    (hrunning : s.running = before ++ task :: after)
    (hrunning' : s'.running = before ++ tasks ++ after) (hhashes : s'.hashes = s.hashes)
    (hissued : s'.issued = s.issued) (hcalls : s'.calls = s.calls)
    (hheld : (tasks.flatMap BufferTask.held).Perm task.held)
    (hfound : ∀ key, (s.hashes key).isSome → key ∈ s'.pending ∨ key ∈ batched s')
    (hnodup : (s'.running.flatMap BufferTask.currentKeys).Nodup)
    (hlocked : ∀ key ∈ s'.running.flatMap BufferTask.currentKeys, s'.locked key = true)
    (hok : ∀ other ∈ tasks, other.Ok s) : BufferInvariant s' := by
  refine hs.of_perm hhashes hissued ?_ (hcalls ▸ hs.nothingLost.sums) hfound hnodup hlocked
    fun other hother ↦ ?_
  · rw [hrunning', hcalls]
    exact (perm_running (a := []) (b := []) hrunning hheld).append_right _
  · rw [hrunning'] at hother
    exact (mem_replaced hrunning hother).elim (hok other) fun hrest ↦ hs.ok other hrest.2

omit [DecidableEq Column] in
theorem mem_batched_of_ne {next : BufferTask Key Column Extra} {key other : Key}
    (hrunning : s.running = before ++ task :: after)
    (hunfinished : task.unfinished = key :: next.unfinished) (hne : other ≠ key)
    (h : other ∈ batched s) : other ∈ batched { s with running := before ++ [next] ++ after } :=
  mem_batched_of_perm h rfl (perm_running (a := [key]) (b := []) hrunning
    (.of_eq (hunfinished ▸ congrArg _ (append_nil _)))) (by simpa using hne)

theorem found_of_perm (hs : BufferInvariant s) (hrunning : s.running = before ++ task :: after)
    (hunfinished : (tasks.flatMap BufferTask.unfinished).Perm task.unfinished) (key : Key)
    (h : (s.hashes key).isSome) :
    key ∈ s.pending ∨ key ∈ batched { s with running := before ++ tasks ++ after } :=
  (hs.nothingLost.found key h).imp_right fun (hmem : key ∈ batched s) ↦ mem_batched_of_perm hmem rfl
    (perm_running (a := []) (b := []) hrunning hunfinished) not_mem_nil

/-- A step of a task that keeps the key that it works on. -/
theorem BufferInvariant.replace_same {pending : List Key} (hs : BufferInvariant s)
    (hrunning : s.running = before ++ task :: after)
    (hheld : (tasks.flatMap BufferTask.held).Perm task.held)
    (hcurrent : (tasks.flatMap BufferTask.currentKeys).Perm task.currentKeys)
    (hfound : ∀ key, (s.hashes key).isSome → key ∈ pending ∨
      key ∈ batched { s with running := before ++ tasks ++ after })
    (hok : ∀ other ∈ tasks, other.Ok s) :
    BufferInvariant { s with pending := pending, running := before ++ tasks ++ after } := by
  have hkeys := perm_running (a := []) (b := []) hrunning hcurrent
  exact hs.replace hrunning rfl rfl rfl rfl hheld hfound (hkeys.nodup_iff.mpr hs.nodup)
    (fun key hkey ↦ hs.locked key (hkeys.subset hkey)) hok

/-! ### Increments -/

theorem foldl_hincrby (columns : List (Column × ℤ)) (counters : Column → Option ℤ)
    (column : Column) : ((columns.foldl hincrby counters) column).getD 0 =
      (counters column).getD 0 +
        ((columns.filter fun entry ↦ entry.1 = column).map Prod.snd).sum := by
  induction columns generalizing counters with
  | nil => exact (add_zero _).symm
  | cons entry columns ih =>
    rw [foldl_cons, ih, hincrby]
    by_cases hcolumn : entry.1 = column
    · rw [hcolumn, update_self, filter_cons_of_pos (by simpa using hcolumn),
        map_cons, sum_cons, Option.getD_some, add_assoc]
    · rw [update_of_ne (Ne.symm hcolumn), filter_cons_of_neg (by simpa using hcolumn)]

theorem sumsUp_incr {hash : BufferHash Column Extra} (h : hash.SumsUp)
    (increment : Increment Column) (extra : List (Column × Extra)) (signalOnly : Bool) :
    (hash.incr increment extra signalOnly).SumsUp := by
  intro column
  show ((increment.columns.foldl hincrby hash.counters) column).getD 0 =
    ((hash.increments ++ [increment]).map fun increment ↦ increment.amount column).sum
  rw [foldl_hincrby, h column, map_append, sum_append, map_singleton, sum_singleton]
  rfl

theorem sumsUp_emptyHash : (emptyHash : BufferHash Column Extra).SumsUp := fun _ ↦ rfl

theorem idsOf_incr (hash : Option (BufferHash Column Extra)) (increment : Increment Column)
    (extra : List (Column × Extra)) (signalOnly : Bool) :
    idsOf (some ((hash.getD emptyHash).incr increment extra signalOnly)) =
      idsOf hash ++ [increment.id] := by
  cases hash with
  | none => rfl
  | some hash => exact map_append

variable [DecidableEq Key]

section Incr

variable (key : Key) (columns : List (Column × ℤ)) (extra : List (Column × Extra))
  (signalOnly : Bool)

theorem idsOf_hashes_incr (s : BufferState Key Column Extra) (other : Key) :
    idsOf ((incr s key columns extra signalOnly).hashes other) =
      idsOf (s.hashes other) ++ if other = key then [s.issued.length] else [] := by
  show idsOf (Function.update s.hashes key _ other) = _
  by_cases hother : other = key
  · rw [if_pos hother, hother, update_self, idsOf_incr]
  · rw [if_neg hother, append_nil, update_of_ne hother]

variable {other : Key}

theorem mem_pending_incr (s : BufferState Key Column Extra) :
    other ∈ (incr s key columns extra signalOnly).pending ↔ other = key ∨ other ∈ s.pending := by
  show (other ∈ if key ∈ s.pending then s.pending else s.pending ++ [key]) ↔ _
  split
  next hkey => exact ⟨Or.inr, fun h ↦ h.elim (fun heq ↦ heq ▸ hkey) id⟩
  next =>
    rw [mem_append, mem_singleton]
    exact or_comm

theorem accounted_incr (hs : BufferInvariant s) {n : ℕ}
    (hissued : (s.issued ++ [key])[n]? = some other) :
    (idsOf ((incr s key columns extra signalOnly).hashes other)).count n +
      (s.running.flatMap BufferTask.held).count n + (s.calls.flatMap calledIds).count n = 1 := by
  rw [idsOf_hashes_incr, count_append]
  by_cases hn : n < s.issued.length
  · rw [getElem?_append_left hn] at hissued
    have hzero : (if other = key then [s.issued.length] else []).count n = 0 := by
      refine count_eq_zero.mpr fun hmem ↦ ?_
      split at hmem
      · exact absurd (mem_singleton.mp hmem) hn.ne
      · exact absurd hmem not_mem_nil
    have haccounted := hs.nothingLost.accounted n other hissued
    omega
  · have hlt := (List.getElem?_eq_some_iff.mp hissued).1
    rw [length_append, length_singleton] at hlt
    obtain rfl : n = s.issued.length := by omega
    rw [getElem?_concat_length] at hissued
    obtain rfl := Option.some.inj hissued
    have hhash : (idsOf (s.hashes key)).count s.issued.length = 0 := by
      refine count_eq_zero.mpr fun hmem ↦ ?_
      have hold := hs.issued_of_mem key _ hmem
      exact absurd (List.getElem?_eq_some_iff.mp hold).1 (lt_irrefl _)
    have hheld : (s.running.flatMap BufferTask.held).count s.issued.length = 0 :=
      count_eq_zero.mpr fun hmem ↦ absurd (hs.lt_of_mem_held _ hmem) (lt_irrefl _)
    have hcalls : (s.calls.flatMap calledIds).count s.issued.length = 0 :=
      count_eq_zero.mpr fun hmem ↦ absurd (hs.lt_of_mem_calls _ hmem) (lt_irrefl _)
    rw [if_pos rfl, count_singleton_self]
    omega

theorem found_incr (hs : BufferInvariant s)
    (hother : ((incr s key columns extra signalOnly).hashes other).isSome) :
    other ∈ (incr s key columns extra signalOnly).pending ∨ other ∈ batched s := by
  rw [mem_pending_incr, or_assoc]
  by_cases hkey : other = key
  · exact Or.inl hkey
  · replace hother : (Function.update s.hashes key _ other).isSome := hother
    rw [update_of_ne hkey] at hother
    exact Or.inr (hs.nothingLost.found other hother)

theorem issued_incr_of_mem (hs : BufferInvariant s) {n : ℕ}
    (hn : n ∈ idsOf ((incr s key columns extra signalOnly).hashes other)) :
    (s.issued ++ [key])[n]? = some other := by
  rw [idsOf_hashes_incr] at hn
  rcases mem_append.mp hn with hmem | hnew
  · have hissued := hs.issued_of_mem other n hmem
    rwa [getElem?_append_left (List.getElem?_eq_some_iff.mp hissued).1]
  · split at hnew
    next hother => rw [mem_singleton.mp hnew, getElem?_concat_length, hother]
    next => exact absurd hnew not_mem_nil

theorem ok_incr (h : task.Ok s) : task.Ok (incr s key columns extra signalOnly) := by
  have hmore (other : Key) (values : Option (BufferHash Column Extra))
      (hread : ∃ more, idsOf (s.hashes other) = idsOf values ++ more) :
      ∃ more, idsOf ((incr s key columns extra signalOnly).hashes other) =
        idsOf values ++ more := by
    obtain ⟨more, hmore⟩ := hread
    refine ⟨more ++ if other = key then [s.issued.length] else [], ?_⟩
    rw [idsOf_hashes_incr, hmore, append_assoc]
  rw [BufferTask.Ok] at h ⊢
  split
  next other values hcurrent =>
    rw [hcurrent] at h
    exact h.imp_left (hmore other values)
  next other values hcurrent =>
    rw [hcurrent] at h
    exact h.imp_left (hmore other values)
  next other values hcurrent =>
    rw [hcurrent] at h
    exact h
  next => trivial

theorem sumsUp_hashes_incr (hs : BufferInvariant s) {hash : BufferHash Column Extra}
    (hhash : hash ∈ (incr s key columns extra signalOnly).hashes other) : hash.SumsUp := by
  replace hhash : hash ∈ Function.update s.hashes key _ other := hhash
  by_cases hkey : other = key
  · rw [hkey, update_self] at hhash
    rw [← Option.some.inj hhash]
    refine sumsUp_incr ?_ _ _ _
    cases hhashes : s.hashes key with
    | none => exact sumsUp_emptyHash
    | some old => exact hs.sums key old hhashes
  · rw [update_of_ne hkey] at hhash
    exact hs.sums other hash hhash

theorem BufferInvariant.incr (hs : BufferInvariant s) :
    BufferInvariant (incr s key columns extra signalOnly) := by
  have hle : s.issued.length ≤ (Buffer.incr s key columns extra signalOnly).issued.length := by
    show s.issued.length ≤ (s.issued ++ [key]).length
    rw [length_append]
    exact Nat.le_add_right _ _
  exact
    { nothingLost :=
        { accounted := fun _ _ hissued ↦ accounted_incr key columns extra signalOnly hs hissued
          sums := hs.nothingLost.sums
          found := fun _ hother ↦ found_incr key columns extra signalOnly hs hother }
      issued_of_mem := fun _ _ hn ↦ issued_incr_of_mem key columns extra signalOnly hs hn
      lt_of_mem_held := fun n hn ↦ (hs.lt_of_mem_held n hn).trans_le hle
      lt_of_mem_calls := fun n hn ↦ (hs.lt_of_mem_calls n hn).trans_le hle
      nodup := hs.nodup
      locked := hs.locked
      ok := fun task htask ↦ ok_incr key columns extra signalOnly (hs.ok task htask)
      sums := fun _ _ hhash ↦ sumsUp_hashes_incr key columns extra signalOnly hs hhash }

end Incr

/-! ### The sweep and the queue -/

variable {config : BufferConfig Key}

omit [DecidableEq Key] in
theorem BufferInvariant.queue (hs : BufferInvariant s) (batch : List Key) (sweep : Sweep Key) :
    BufferInvariant { s with queued := s.queued ++ [batch], sweep := sweep } := by
  refine hs.of_found fun key hkey ↦ (hs.nothingLost.found key hkey).imp_right fun hbatched ↦ ?_
  simp only [batched, flatten_append, mem_append] at hbatched ⊢
  exact hbatched.imp_left Or.inl

theorem BufferInvariant.sweepStep (hs : BufferInvariant s) :
    (Safe s (.sweep : BufferEvent Key Column Extra) → BufferInvariant (sweepStep config s)) ∧
      (NothingLost (Buffer.sweepStep config s) →
        Safe s (.sweep : BufferEvent Key Column Extra)) := by
  match hsweep : s.sweep with
  | .idle =>
    simp only [Safe, Buffer.sweepStep, hsweep]
    exact ⟨fun _ ↦ hs, fun _ ↦ trivial⟩
  | .reading (host :: hosts) program =>
    simp only [Safe, Buffer.sweepStep, hsweep]
    exact ⟨fun _ ↦ hs.of_found hs.nothingLost.found, fun _ ↦ trivial⟩
  | .reading [] program =>
    simp only [Safe, Buffer.sweepStep, hsweep]
    exact ⟨fun _ ↦ hs.of_found hs.nothingLost.found, fun _ ↦ trivial⟩
  | .working (.append key :: program) batches =>
    simp only [Safe, Buffer.sweepStep, hsweep]
    refine ⟨fun _ ↦ ?_, fun _ ↦ trivial⟩
    split
    next => exact hs.queue _ _
    next => exact hs.of_found hs.nothingLost.found
  | .working (.zrem keys :: program) batches =>
    simp only [Safe, Buffer.sweepStep, hsweep]
    constructor
    · intro hsafe
      refine hs.of_found fun key hkey ↦ ?_
      by_cases hmem : key ∈ keys
      · exact Or.inr (hsafe key hmem hkey)
      · exact (hs.nothingLost.found key hkey).imp_left fun hpending ↦
          mem_filter.mpr ⟨hpending, decide_eq_true hmem⟩
    · intro hlost key hmem hkey
      rcases hlost.found key hkey with hpending | hbatched
      · exact absurd hmem (of_decide_eq_true (mem_filter.mp hpending).2)
      · exact hbatched
  | .working [] batches =>
    simp only [Safe, Buffer.sweepStep, hsweep]
    refine ⟨fun _ ↦ ?_, fun _ ↦ trivial⟩
    split
    next => exact hs.queue _ _
    next => exact hs.of_found hs.nothingLost.found

omit [DecidableEq Key] in
theorem BufferInvariant.startTask {keys : List Key} {index : ℕ} (hs : BufferInvariant s)
    (h : s.queued[index]? = some keys) :
    BufferInvariant { s with
      queued := s.queued.eraseIdx index
      running := s.running ++ [⟨none, keys⟩] } := by
  have hnew {β : Type} (part : BufferTask Key Column Extra → List β)
      (hpart : part ⟨none, keys⟩ = []) :
      (s.running ++ [BufferTask.mk none keys]).flatMap part = s.running.flatMap part := by
    rw [flatMap_append, flatMap_singleton, hpart, append_nil]
  refine hs.of_perm rfl rfl (.of_eq ?_) hs.nothingLost.sums (fun key hkey ↦ ?_) ?_ ?_
    fun task htask ↦ ?_
  · rw [hnew BufferTask.held rfl]
  · refine (hs.nothingLost.found key hkey).imp_right fun hbatched ↦ ?_
    rw [batched, flatMap_append, flatMap_singleton]
    rcases mem_append.mp hbatched with hleft | hright
    · obtain ⟨batch, hbatch, hmem⟩ := mem_flatten.mp hleft
      obtain ⟨position, hposition, rfl⟩ := mem_iff_getElem.mp hbatch
      by_cases heq : position = index
      · refine mem_append_right _ (mem_append_right _ ?_)
        obtain ⟨hindex, rfl⟩ := List.getElem?_eq_some_iff.mp h
        rwa [← getElem_congr_idx heq]
      · refine mem_append_left _ (mem_flatten.mpr ⟨_, ?_, hmem⟩)
        exact mem_eraseIdx_iff_getElem.mpr ⟨position, hposition, heq, rfl⟩
    · exact mem_append_right _ (mem_append_left _ hright)
  · rw [hnew BufferTask.currentKeys rfl]
    exact hs.nodup
  · rw [hnew BufferTask.currentKeys rfl]
    exact hs.locked
  · rcases mem_append.mp htask with hold | hlast
    · exact hs.ok task hold
    · rw [mem_singleton.mp hlast]
      trivial

/-! ### The tasks -/

section Tasks

variable {key : Key} {keys : List Key} {values : Option (BufferHash Column Extra)}
  {phase : Phase Column Extra}

omit [DecidableEq Key] in
theorem BufferInvariant.drop (hs : BufferInvariant s)
    (hrunning : s.running = before ++ ⟨none, key :: keys⟩ :: after)
    (hfound : (s.hashes key).isSome → key ∈ s.pending ∨
      key ∈ batched { s with running := before ++ [⟨none, keys⟩] ++ after }) :
    BufferInvariant { s with running := before ++ [⟨none, keys⟩] ++ after } := by
  refine hs.replace_same hrunning (.refl _) (.refl _) (fun other hother ↦ ?_) fun other hother ↦ ?_
  · by_cases hkey : other = key
    · exact hkey ▸ hfound (hkey ▸ hother)
    · exact (hs.nothingLost.found other hother).imp_right (mem_batched_of_ne hrunning rfl hkey)
  · rw [mem_singleton.mp hother]
    trivial

omit [DecidableEq Column] in
theorem locked_update {s : BufferState Key Column Extra} {other : Key} (hother : other ≠ key)
    (h : s.locked other = true) (locked : Bool) :
    Function.update s.locked key locked other = true := by
  rwa [update_of_ne hother]

theorem BufferInvariant.lock (hs : BufferInvariant s)
    (hrunning : s.running = before ++ ⟨none, key :: keys⟩ :: after) (hfree : s.locked key ≠ true) :
    BufferInvariant { s with
      locked := Function.update s.locked key true
      running := before ++ [⟨some (key, .locked), keys⟩] ++ after } := by
  have hcurrent : ((before ++ [BufferTask.mk (some (key, .locked)) keys] ++ after).flatMap
      BufferTask.currentKeys).Perm (key :: s.running.flatMap BufferTask.currentKeys) :=
    perm_running (a := []) (b := [key]) hrunning (.refl _)
  refine hs.replace hrunning rfl rfl rfl rfl (.refl _)
    (found_of_perm hs hrunning (.of_eq (append_nil _))) ?_ (fun other hother ↦ ?_)
    fun other hother ↦ ?_
  · exact hcurrent.nodup_iff.mpr
      (nodup_cons.mpr ⟨fun hmem ↦ hfree (hs.locked key hmem), hs.nodup⟩)
  · rcases mem_cons.mp (hcurrent.subset hother) with rfl | hmem
    · exact update_self other true s.locked
    · by_cases hkey : other = key
      · rw [hkey]
        exact update_self key true s.locked
      · exact locked_update hkey (hs.locked other hmem) true
  · rw [mem_singleton.mp hother]
    trivial

theorem BufferInvariant.zrem (hs : BufferInvariant s)
    (hrunning : s.running = before ++ ⟨some (key, .read values), keys⟩ :: after) :
    BufferInvariant { s with
      pending := s.pending.filter (· ≠ key)
      running := before ++ [⟨some (key, .removed values), keys⟩] ++ after } := by
  refine hs.replace_same hrunning (.refl _) (.refl _) (fun other hother ↦ ?_) fun other hother ↦ ?_
  · by_cases hkey : other = key
    · refine Or.inr (mem_append_right _ (mem_flatMap.mpr
        ⟨⟨some (key, .removed values), keys⟩, by simp, ?_⟩))
      rw [hkey]
      exact mem_cons_self
    · exact (found_of_perm hs hrunning (.of_eq (append_nil _)) other hother).imp_left
        fun hpending ↦ mem_filter.mpr ⟨hpending, decide_eq_true hkey⟩
  · have hok : BufferTask.Ok s ⟨some (key, .read values), keys⟩ := hs.ok _ (mem_running hrunning)
    rw [mem_singleton.mp hother]
    exact hok

theorem BufferInvariant.unlock (hs : BufferInvariant s)
    (hrunning : s.running = before ++ ⟨some (key, phase), keys⟩ :: after)
    (hheld : BufferTask.held (⟨some (key, phase), keys⟩ : BufferTask Key Column Extra) = [])
    (hunfinished :
      BufferTask.unfinished (⟨some (key, phase), keys⟩ : BufferTask Key Column Extra) = keys) :
    BufferInvariant { s with
      locked := Function.update s.locked key false
      running := before ++ [⟨none, keys⟩] ++ after } := by
  have hcurrent : (key :: (before ++ [BufferTask.mk none keys] ++ after).flatMap
      BufferTask.currentKeys).Perm (s.running.flatMap BufferTask.currentKeys) :=
    perm_running (a := [key]) (b := []) hrunning (.refl _)
  obtain ⟨hkey, hnodup⟩ := nodup_cons.mp (hcurrent.nodup_iff.mpr hs.nodup)
  refine hs.replace hrunning rfl rfl rfl rfl (.of_eq hheld.symm)
    (found_of_perm hs hrunning (.of_eq ((append_nil keys).trans hunfinished.symm))) hnodup
    (fun other hother ↦ ?_) fun other hother ↦ ?_
  · exact locked_update (fun (heq : other = key) ↦ hkey (heq ▸ hother))
      (hs.locked other (hcurrent.subset (mem_cons_of_mem _ hother))) false
  · rw [mem_singleton.mp hother]
    trivial

omit [DecidableEq Key] in
theorem exists_more (hs : BufferInvariant s)
    (hrunning : s.running = before ++ ⟨some (key, .removed values), keys⟩ :: after) :
    (∃ more, idsOf (s.hashes key) = idsOf values ++ more) ∧ ∀ hash ∈ values, hash.SumsUp :=
  hs.ok _ (mem_running hrunning)

omit [DecidableEq Key] in
/-- The call of `_process` takes over what the task holds. -/
theorem BufferInvariant.process {hash : BufferHash Column Extra} (hs : BufferInvariant s)
    (hrunning : s.running = before ++ ⟨some (key, .deleted (some hash)), keys⟩ :: after) :
    BufferInvariant { s with
      calls := s.calls ++ [(key, hash)]
      running := before ++ [⟨some (key, .processed), keys⟩] ++ after } := by
  have hsums : hash.SumsUp := hs.ok _ (mem_running hrunning) hash rfl
  have hheld : (idsOf (some hash) ++
      (before ++ [BufferTask.mk (some (key, .processed)) keys] ++ after).flatMap
      BufferTask.held).Perm (s.running.flatMap BufferTask.held) :=
    perm_running (b := []) hrunning (.of_eq (append_nil _))
  have hcurrent : ((before ++ [BufferTask.mk (some (key, .processed)) keys] ++ after).flatMap
      BufferTask.currentKeys).Perm (s.running.flatMap BufferTask.currentKeys) :=
    perm_running (a := []) (b := []) hrunning (.refl _)
  refine hs.of_perm rfl rfl ?_ (fun call hcall ↦ ?_)
    (found_of_perm hs hrunning (.of_eq (append_nil keys))) (hcurrent.nodup_iff.mpr hs.nodup)
    (fun other hother ↦ hs.locked other (hcurrent.subset hother)) fun other hother ↦ ?_
  · show (_ ++ (s.calls ++ [(key, hash)]).flatMap calledIds).Perm _
    rw [s.calls.flatMap_append, flatMap_singleton, ← append_assoc]
    refine perm_append_comm.trans ?_
    rw [← append_assoc]
    exact hheld.append_right _
  · rcases mem_append.mp hcall with hold | hnew
    · exact hs.nothingLost.sums call hold
    · rw [mem_singleton.mp hnew]
      exact hsums
  · rcases mem_replaced hrunning hother with hnew | hrest
    · rw [mem_singleton.mp hnew]
      trivial
    · exact hs.ok other hrest.2

omit [DecidableEq Key] in
theorem notMem_currentKeys {other : BufferTask Key Column Extra} (hs : BufferInvariant s)
    (hrunning : s.running = before ++ ⟨some (key, phase), keys⟩ :: after)
    (hother : other ∈ before ++ after) : key ∉ other.currentKeys := by
  intro hkey
  have hnodup := hs.nodup
  rw [hrunning, flatMap_append, flatMap_cons] at hnodup
  refine (nodup_cons.mp (nodup_middle.mp hnodup)).1 ?_
  exact flatMap_append ▸ mem_flatMap.mpr ⟨other, hother, hkey⟩

theorem ok_update {other : BufferTask Key Column Extra} (hok : other.Ok s)
    (hkey : key ∉ other.currentKeys) {s' : BufferState Key Column Extra}
    (hhashes : s'.hashes = Function.update s.hashes key none) : other.Ok s' := by
  rw [BufferTask.Ok] at hok ⊢
  rw [BufferTask.currentKeys] at hkey
  rw [hhashes]
  split
  next current values hcurrent =>
    rw [hcurrent] at hok hkey
    rw [update_of_ne fun heq ↦ hkey (mem_singleton.mpr heq.symm)]
    exact hok
  next current values hcurrent =>
    rw [hcurrent] at hok hkey
    rw [update_of_ne fun heq ↦ hkey (mem_singleton.mpr heq.symm)]
    exact hok
  next current values hcurrent =>
    rw [hcurrent] at hok
    exact hok
  next => trivial

omit [DecidableEq Column] [DecidableEq Key] in
theorem held_delete
    (hrunning : s.running = before ++ ⟨some (key, .removed values), keys⟩ :: after) :
    ((before ++ [BufferTask.mk (some (key, .deleted values)) keys] ++ after).flatMap
      BufferTask.held).Perm (idsOf values ++ s.running.flatMap BufferTask.held) :=
  perm_running (a := []) hrunning (.refl _)

section

variable (hs : BufferInvariant s)
  (hrunning : s.running = before ++ ⟨some (key, .removed values), keys⟩ :: after)

include hs hrunning

theorem accounted_delete {n : ℕ} {other : Key} (hn : s.issued[n]? = some other) :
    (idsOf (Function.update s.hashes key none other)).count n +
      ((before ++ [BufferTask.mk (some (key, .deleted values)) keys] ++ after).flatMap
        BufferTask.held).count n + (s.calls.flatMap calledIds).count n =
      if other = key then 1 - ((idsOf (s.hashes key)).count n - (idsOf values).count n) else 1 := by
  obtain ⟨⟨more, hmore⟩, -⟩ := exists_more hs hrunning
  have haccounted := hs.nothingLost.accounted n other hn
  rw [(held_delete hrunning).count_eq, count_append]
  by_cases hkey : other = key
  · rw [if_pos hkey, hkey, update_self]
    rw [hkey, hmore, count_append] at haccounted
    rw [hmore, count_append]
    show List.count n [] + _ + _ = _
    rw [count_nil]
    omega
  · rw [if_neg hkey, update_of_ne hkey]
    have hzero : (idsOf values).count n = 0 := count_eq_zero.mpr fun hmem ↦ by
      have hissued := hs.issued_of_mem key n (by rw [hmore]; exact mem_append_left _ hmem)
      rw [hn] at hissued
      exact hkey (Option.some.inj hissued)
    omega

theorem BufferInvariant.delete (hsame : idsOf (s.hashes key) = idsOf values) :
    BufferInvariant { s with
      hashes := Function.update s.hashes key none
      running := before ++ [⟨some (key, .deleted values), keys⟩] ++ after } := by
  obtain ⟨-, hsums⟩ := exists_more hs hrunning
  have hcurrent : ((before ++ [BufferTask.mk (some (key, .deleted values)) keys] ++ after).flatMap
      BufferTask.currentKeys).Perm (s.running.flatMap BufferTask.currentKeys) :=
    perm_running (a := []) (b := []) hrunning (.refl _)
  have hkept {other : Key} {hash : BufferHash Column Extra}
      (hhash : hash ∈ Function.update s.hashes key none other) :
      other ≠ key ∧ hash ∈ s.hashes other := by
    by_cases hkey : other = key
    · simp [hkey] at hhash
    · rw [update_of_ne hkey] at hhash
      exact ⟨hkey, hhash⟩
  refine ⟨⟨fun n other hn ↦ ?_, hs.nothingLost.sums, fun other hother ↦ ?_⟩, fun other n hn ↦ ?_,
    fun n hn ↦ ?_, hs.lt_of_mem_calls, hcurrent.nodup_iff.mpr hs.nodup,
    fun other hother ↦ hs.locked other (hcurrent.subset hother), fun other hother ↦ ?_,
    fun other hash hhash ↦ hs.sums other hash (hkept hhash).2⟩
  · refine (accounted_delete hs hrunning hn).trans ?_
    rw [hsame, Nat.sub_self]
    exact ite_self 1
  · obtain ⟨hash, hhash⟩ := Option.isSome_iff_exists.mp hother
    obtain ⟨hkey, hold⟩ := hkept hhash
    exact (hs.nothingLost.found other (hold ▸ rfl)).imp_right (mem_batched_of_ne hrunning rfl hkey)
  · have hupdate : n ∈ idsOf (Function.update s.hashes key none other) := hn
    by_cases hkey : other = key
    · rw [hkey, update_self] at hupdate
      exact absurd hupdate not_mem_nil
    · rw [update_of_ne hkey] at hupdate
      exact hs.issued_of_mem other n hupdate
  · rcases mem_append.mp ((held_delete hrunning).subset hn) with hvalues | hheld
    · rw [← hsame] at hvalues
      exact (List.getElem?_eq_some_iff.mp (hs.issued_of_mem key n hvalues)).1
    · exact hs.lt_of_mem_held n hheld
  · rcases mem_replaced hrunning hother with hnew | ⟨hrest, hold⟩
    · rw [mem_singleton.mp hnew]
      exact hsums
    · exact ok_update (hs.ok other hold) (notMem_currentKeys hs hrunning hrest) rfl

theorem same_of_delete (h : NothingLost { s with
      hashes := Function.update s.hashes key none
      running := before ++ [⟨some (key, .deleted values), keys⟩] ++ after }) :
    idsOf (s.hashes key) = idsOf values := by
  obtain ⟨⟨more, hmore⟩, -⟩ := exists_more hs hrunning
  cases more with
  | nil => rwa [append_nil] at hmore
  | cons n more =>
    have hn : s.issued[n]? = some key := hs.issued_of_mem key n
      (by rw [hmore]; exact mem_append_right _ mem_cons_self)
    have hcount := (accounted_delete hs hrunning hn).symm.trans (h.accounted n key hn)
    rw [if_pos rfl, hmore, count_append, count_cons_self] at hcount
    omega

end

end Tasks

theorem BufferInvariant.taskStep {index : ℕ} (hs : BufferInvariant s)
    (h : s.running[index]? = some task) :
    (Safe s (.task index : BufferEvent Key Column Extra) →
      BufferInvariant (bufferStep config s (.task index))) ∧
      (NothingLost (bufferStep config s (.task index)) →
        Safe s (.task index : BufferEvent Key Column Extra)) := by
  have hrunning : s.running = s.running.take index ++ task :: s.running.drop (index + 1) := by
    obtain ⟨hindex, rfl⟩ := List.getElem?_eq_some_iff.mp h
    rw [cons_getElem_drop_succ, take_append_drop]
  match task with
  | ⟨none, []⟩ =>
    simp only [Safe, bufferStep, h, Buffer.taskStep]
    exact ⟨fun _ ↦ hs.replace_same hrunning (.refl _) (.refl _)
      (found_of_perm hs hrunning (.refl _)) fun _ hnone ↦ absurd hnone
      not_mem_nil, fun _ ↦ trivial⟩
  | ⟨none, key :: keys⟩ =>
    simp only [Safe, bufferStep, h, Buffer.taskStep]
    by_cases hlocked : s.locked key = true
    · simp only [if_pos hlocked]
      exact ⟨fun hsafe ↦ hs.drop hrunning (hsafe hlocked), fun hlost _ hkey ↦ hlost.found key hkey⟩
    · simp only [if_neg hlocked]
      exact ⟨fun _ ↦ hs.lock hrunning hlocked, fun _ hkey ↦ absurd hkey hlocked⟩
  | ⟨some (key, .locked), keys⟩ =>
    simp only [Safe, bufferStep, h, Buffer.taskStep]
    refine ⟨fun _ ↦ hs.replace_same hrunning (.refl _) (.refl _)
      (found_of_perm hs hrunning (.of_eq (append_nil _))) fun other hother ↦ ?_,
      fun _ ↦ trivial⟩
    rw [mem_singleton.mp hother]
    exact ⟨⟨[], (append_nil _).symm⟩, hs.sums key⟩
  | ⟨some (key, .read values), keys⟩ =>
    simp only [Safe, bufferStep, h, Buffer.taskStep]
    exact ⟨fun _ ↦ hs.zrem hrunning, fun _ ↦ trivial⟩
  | ⟨some (key, .removed values), keys⟩ =>
    simp only [Safe, bufferStep, h, Buffer.taskStep]
    exact ⟨fun hsame ↦ hs.delete hrunning hsame, fun hlost ↦ same_of_delete hs hrunning hlost⟩
  | ⟨some (key, .deleted (some hash)), keys⟩ =>
    simp only [Safe, bufferStep, h, Buffer.taskStep]
    exact ⟨fun _ ↦ hs.process hrunning, fun _ ↦ trivial⟩
  | ⟨some (key, .deleted none), keys⟩ =>
    simp only [Safe, bufferStep, h, Buffer.taskStep]
    exact ⟨fun _ ↦ hs.unlock hrunning rfl rfl, fun _ ↦ trivial⟩
  | ⟨some (key, .processed), keys⟩ =>
    simp only [Safe, bufferStep, h, Buffer.taskStep]
    exact ⟨fun _ ↦ hs.unlock hrunning rfl rfl, fun _ ↦ trivial⟩

/-! ### Runs -/

theorem BufferInvariant.bufferStep (hs : BufferInvariant s) (event : BufferEvent Key Column Extra) :
    (Safe s event → BufferInvariant (bufferStep config s event)) ∧
      (NothingLost (Buffer.bufferStep config s event) → Safe s event) := by
  cases event with
  | incr key columns extra signalOnly =>
    exact ⟨fun _ ↦ hs.incr key columns extra signalOnly, fun _ ↦ trivial⟩
  | processPending =>
    refine ⟨fun _ ↦ ?_, fun _ ↦ trivial⟩
    rw [Buffer.bufferStep]
    split
    next => exact hs.of_found hs.nothingLost.found
    next => exact hs
  | sweep => exact hs.sweepStep
  | startTask index =>
    refine ⟨fun _ ↦ ?_, fun _ ↦ trivial⟩
    rw [Buffer.bufferStep]
    split
    next keys hkeys => exact hs.startTask hkeys
    next => exact hs
  | task index =>
    cases htask : s.running[index]? with
    | some task => exact hs.taskStep htask
    | none =>
      simp only [Buffer.bufferStep, Safe, htask]
      exact ⟨fun _ ↦ hs, fun _ ↦ trivial⟩

theorem bufferInvariant_init :
    BufferInvariant (redisBuffer config : Library.Machine (BufferState Key Column Extra) _).init :=
  ⟨⟨fun n key hn ↦ absurd hn (by simp [redisBuffer]), fun _ hcall ↦ absurd hcall not_mem_nil,
    fun _ hkey ↦ absurd hkey Bool.false_ne_true⟩, fun _ _ hn ↦ absurd hn not_mem_nil,
    fun _ hn ↦ absurd hn not_mem_nil, fun _ hn ↦ absurd hn not_mem_nil, nodup_nil,
    fun _ hkey ↦ absurd hkey not_mem_nil, fun _ htask ↦ absurd htask not_mem_nil,
    fun _ _ hhash ↦ absurd hhash (by simp [redisBuffer])⟩

/-- In a run, nothing is lost if and only if every step is safe. -/
theorem nothingLost_iff (config : BufferConfig Key) (events : List (BufferEvent Key Column Extra)) :
    (∀ first, first <+: events → NothingLost ((redisBuffer config).run first)) ↔
      (redisBuffer config).EveryStep Safe (redisBuffer config).init events :=
  (redisBuffer config).forall_prefix_property_iff_everyStep
    (I := BufferInvariant) (G := NothingLost) (P := Safe)
    (fun _ hs ↦ hs.nothingLost) (fun _ event hs ↦ (hs.bufferStep event).1)
    (fun _ event hs ↦ (hs.bufferStep event).2) bufferInvariant_init events

def oneHost : BufferConfig Unit := ⟨[0], fun _ ↦ 0, 1, [0], fun _ ↦ 0⟩

def addedBetween : List (BufferEvent Unit Unit Unit) :=
  [.incr () [((), 1)] [] false, .processPending, .sweep, .sweep, .sweep, .sweep, .sweep,
    .startTask 0, .task 0, .task 0, .incr () [((), 1)] [] false, .task 0, .task 0]

/-- The second increment is in no hash and in no call. -/
theorem not_nothingLost : ¬ ∀ (config : BufferConfig Unit)
    (events : List (BufferEvent Unit Unit Unit)),
      NothingLost ((redisBuffer config).run events) := by
  intro h
  have haccounted := (h oneHost addedBetween).accounted 1 () (by decide)
  exact absurd haccounted (by decide)

end Sentry.Buffer
