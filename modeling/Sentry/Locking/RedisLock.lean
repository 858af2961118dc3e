import Sentry.Library.Machine
import Mathlib.Algebra.Order.Field.Rat

/-!
# Locks in Redis

`utils/locking/backends/redis.py`, `utils/locking/lock.py` and `delete_lock.lua`, for one key. An
acquisition sets the key to the uuid of its backend instance if the key does not exist; a release
deletes the key if its value is the uuid. The value tells the instance but not the acquisition, so a
release can delete the lock of another one through the same instance. This is the only way in which
two acquisitions hold the lock (`exclusive_iff_everyStep`).
-/

namespace Sentry.Locking

open Library List Option

variable {Backend Uuid : Type*}

/-- `Lock`, for the one key: its backend instance, and the duration in seconds. -/
structure Lock (Backend : Type*) where
  backend : Backend
  duration : ℕ

/-- A call of `Lock.acquire` that has succeeded, when it did, and whether it was released. -/
structure Acquisition (Backend : Type*) where
  lock : Lock Backend
  acquiredAt : ℚ
  released : Bool

/-- The key in Redis, and the acquisition that has set it, which Redis does not know. -/
structure Key (Uuid : Type*) where
  value : Uuid
  expiresAt : ℚ
  setBy : ℕ

/-- The replies of the script. -/
inductive DeleteReply (Uuid : Type*)
  | noLock
  | setByOther (value uuid : Uuid)
  | ok

/-- The clock, the key, the acquisitions so far, and for each release that has deleted the key which
one it was and which one had set the key. -/
structure LockState (Backend Uuid : Type*) where
  now : ℚ
  key : Option (Key Uuid)
  acquisitions : List (Acquisition Backend)
  deletions : List (ℕ × ℕ)

/-- The clock moves; a lock is acquired, or not; an acquisition is released. -/
inductive LockEvent (Backend : Type*)
  | clock (time : ℚ)
  | acquire (lock : Lock Backend)
  | release (acquisition : ℕ)

namespace LockState

/-- `GET`, with the expiry. -/
def get (s : LockState Backend Uuid) : Option (Key Uuid) :=
  s.key.filter fun key ↦ s.now < key.expiresAt

/-- `delete_lock.lua`: the reply, and the key afterwards. -/
def deleteLock [DecidableEq Uuid] (s : LockState Backend Uuid) (uuid : Uuid) :
    DeleteReply Uuid × Option (Key Uuid) :=
  match s.get with
  | none => (.noLock, s.key)
  | some key => if key.value ≠ uuid then (.setByOther key.value uuid, s.key) else (.ok, none)

/-- `BaseRedisLockBackend.acquire`: `SET` with `NX` and `EX`, which Redis refuses for no duration.
-/
def acquire (uuid : Backend → Uuid) (s : LockState Backend Uuid) (lock : Lock Backend) :
    LockState Backend Uuid :=
  if lock.duration = 0 then s
  else
    match s.get with
    | some _ => s
    | none =>
      { s with
        key := some ⟨uuid lock.backend, s.now + lock.duration, s.acquisitions.length⟩
        acquisitions := s.acquisitions ++ [⟨lock, s.now, false⟩] }

/-- `Lock.release`: the errors of the script are suppressed. -/
def release [DecidableEq Uuid] (uuid : Backend → Uuid) (s : LockState Backend Uuid) (a : ℕ) :
    LockState Backend Uuid :=
  match s.acquisitions[a]? with
  | none => s
  | some acquisition =>
    { s with
      key := (s.deleteLock (uuid acquisition.lock.backend)).2
      acquisitions := s.acquisitions.set a { acquisition with released := true }
      deletions :=
        match (s.deleteLock (uuid acquisition.lock.backend)).1, s.get with
        | .ok, some key => s.deletions ++ [(a, key.setBy)]
        | _, _ => s.deletions }

/-- One step. -/
def step [DecidableEq Uuid] (uuid : Backend → Uuid) (s : LockState Backend Uuid) :
    LockEvent Backend → LockState Backend Uuid
  | .clock time => if s.now ≤ time then { s with now := time } else s
  | .acquire lock => s.acquire uuid lock
  | .release a => s.release uuid a

end LockState

/-- Any threads and processes with any locks, from no lock on. -/
def locking [DecidableEq Uuid] (uuid : Backend → Uuid) (start : ℚ) :
    Machine (LockState Backend Uuid) (LockEvent Backend) where
  init := ⟨start, none, [], []⟩
  step := LockState.step uuid

def Acquisition.Holds (acquisition : Acquisition Backend) (now : ℚ) : Prop :=
  acquisition.released = false ∧ now < acquisition.acquiredAt + acquisition.lock.duration

def LockState.Holds (s : LockState Backend Uuid) (a : ℕ) : Prop :=
  ∃ acquisition ∈ s.acquisitions[a]?, acquisition.Holds s.now

/-- No release has deleted the lock of another acquisition, and at most one acquisition holds the
lock. -/
structure Exclusive (s : LockState Backend Uuid) : Prop where
  own : ∀ deletion ∈ s.deletions, deletion.1 = deletion.2
  unique : ∀ a b, s.Holds a → s.Holds b → a = b

/-- A release does not come when another acquisition through a backend with the same uuid holds the
lock. -/
def ReleasesAlone (uuid : Backend → Uuid) (s : LockState Backend Uuid) : LockEvent Backend → Prop
  | .release a => ∀ acquisition ∈ s.acquisitions[a]?, ∀ b, ∀ other ∈ s.acquisitions[b]?,
      other.Holds s.now → uuid other.lock.backend = uuid acquisition.lock.backend → a = b
  | _ => True

/-- The acquisition that has set the key has the uuid and the expiry of the key and is not released,
and one that holds the lock has set the key. -/
structure Accounted (uuid : Backend → Uuid) (s : LockState Backend Uuid) : Prop where
  key : ∀ key ∈ s.key, ∃ acquisition ∈ s.acquisitions[key.setBy]?,
    key.value = uuid acquisition.lock.backend ∧
      key.expiresAt = acquisition.acquiredAt + acquisition.lock.duration ∧
      (s.now < key.expiresAt → acquisition.released = false)
  holds : ∀ a, s.Holds a → ∃ key ∈ s.key, key.setBy = a
  own : ∀ deletion ∈ s.deletions, deletion.1 = deletion.2

variable {uuid : Backend → Uuid} {s : LockState Backend Uuid}

theorem Accounted.exclusive (h : Accounted uuid s) : Exclusive s := by
  refine ⟨h.own, fun a b ha hb ↦ ?_⟩
  obtain ⟨key, hkey, rfl⟩ := h.holds a ha
  obtain ⟨key', hkey', rfl⟩ := h.holds b hb
  rw [mem_unique hkey hkey']

theorem mem_get_iff {key : Key Uuid} : key ∈ s.get ↔ key ∈ s.key ∧ s.now < key.expiresAt := by
  unfold LockState.get
  rw [mem_filter_iff, decide_eq_true_iff]

theorem Accounted.holds_setBy (h : Accounted uuid s) {key : Key Uuid} (hkey : key ∈ s.get) :
    ∃ acquisition ∈ s.acquisitions[key.setBy]?, acquisition.Holds s.now ∧
      key.value = uuid acquisition.lock.backend := by
  obtain ⟨hset, halive⟩ := mem_get_iff.mp hkey
  obtain ⟨acquisition, hmem, hvalue, hexpires, hreleased⟩ := h.key key hset
  exact ⟨acquisition, hmem, ⟨hreleased halive, hexpires ▸ halive⟩, hvalue⟩

variable {acquisition : Acquisition Backend}

theorem Accounted.get_of_holds (h : Accounted uuid s) {a : ℕ}
    (hmem : acquisition ∈ s.acquisitions[a]?) (hholds : acquisition.Holds s.now) :
    ∃ key ∈ s.get, key.setBy = a ∧ key.value = uuid acquisition.lock.backend := by
  obtain ⟨key, hkey, hsetBy⟩ := h.holds a ⟨acquisition, hmem, hholds⟩
  obtain ⟨acquisition', hmem', hvalue, hexpires, -⟩ := h.key key hkey
  rw [hsetBy] at hmem'
  obtain rfl := mem_unique hmem hmem'
  refine ⟨key, mem_get_iff.mpr ⟨hkey, ?_⟩, hsetBy, hvalue⟩
  rw [hexpires]
  exact hholds.2

theorem accounted_clock (h : Accounted uuid s) {time : ℚ} (hle : s.now ≤ time) :
    Accounted uuid { s with now := time } := by
  refine ⟨fun key hkey ↦ ?_, fun a ha ↦ ?_, h.own⟩
  · obtain ⟨acquisition, hmem, hvalue, hexpires, hreleased⟩ := h.key key hkey
    exact ⟨acquisition, hmem, hvalue, hexpires, fun halive ↦ hreleased (hle.trans_lt halive)⟩
  · obtain ⟨acquisition, hmem, hreleased, hlt⟩ := ha
    exact h.holds a ⟨acquisition, hmem, hreleased, hle.trans_lt hlt⟩

/-- `SET NX` finds no key, so no acquisition holds the lock. -/
theorem accounted_acquire (h : Accounted uuid s) (lock : Lock Backend) :
    Accounted uuid (s.acquire uuid lock) := by
  unfold LockState.acquire
  by_cases hzero : lock.duration = 0
  · rw [if_pos hzero]
    exact h
  rw [if_neg hzero]
  cases hget : s.get with
  | some key => exact h
  | none =>
    refine ⟨fun key hkey ↦ ?_, fun a ha ↦ ?_, h.own⟩
    · obtain rfl := mem_some_iff.mp hkey
      exact ⟨⟨lock, s.now, false⟩, getElem?_concat_length, rfl, rfl, fun _ ↦ rfl⟩
    · obtain ⟨acquisition, hmem, hholds⟩ := ha
      rcases lt_trichotomy a s.acquisitions.length with hlt | heq | hgt
      · have hold : acquisition ∈ s.acquisitions[a]? := by
          rwa [mem_def, getElem?_append_left hlt] at hmem
        obtain ⟨key, hkey, -⟩ := h.get_of_holds hold hholds
        rw [hget] at hkey
        exact absurd hkey (not_mem_none key)
      · exact ⟨_, rfl, heq.symm⟩
      · have hnone : (s.acquisitions ++ [⟨lock, s.now, false⟩])[a]? = none :=
          getElem?_eq_none (by rw [length_append]; exact hgt)
        exact absurd (hnone ▸ hmem) (not_mem_none acquisition)

theorem holds_of_set_released {key : Option (Key Uuid)} {deletions : List (ℕ × ℕ)} {a b : ℕ}
    (hb : LockState.Holds ⟨s.now, key,
      s.acquisitions.set a { acquisition with released := true }, deletions⟩ b) :
    b ≠ a ∧ s.Holds b := by
  obtain ⟨other, hmem, hholds⟩ := hb
  by_cases hab : a = b
  · subst hab
    have heq : other = { acquisition with released := true } := by
      rw [mem_def, getElem?_set_self'] at hmem
      obtain ⟨_, _, heq⟩ := map_eq_some_iff.mp hmem
      exact heq.symm
    rw [heq] at hholds
    exact nomatch hholds.1
  · rw [mem_def, getElem?_set_ne hab] at hmem
    exact ⟨Ne.symm hab, other, hmem, hholds⟩

variable [DecidableEq Uuid]

theorem release_cases (uuid : Backend → Uuid) {a : ℕ} (hmem : acquisition ∈ s.acquisitions[a]?) :
    (∃ key ∈ s.get, key.value = uuid acquisition.lock.backend ∧
      s.release uuid a = { s with
        key := none
        acquisitions := s.acquisitions.set a { acquisition with released := true }
        deletions := s.deletions ++ [(a, key.setBy)] }) ∨
    ((∀ key ∈ s.get, key.value ≠ uuid acquisition.lock.backend) ∧
      s.release uuid a = { s with
        acquisitions := s.acquisitions.set a { acquisition with released := true } }) := by
  simp only [LockState.release, mem_def.mp hmem, LockState.deleteLock]
  cases hget : s.get with
  | none => exact Or.inr ⟨fun key hkey ↦ absurd hkey (not_mem_none key), rfl⟩
  | some key =>
    by_cases hvalue : key.value = uuid acquisition.lock.backend
    · exact Or.inl ⟨key, rfl, hvalue, by simp [hvalue]⟩
    · refine Or.inr ⟨fun key' hkey' ↦ ?_, by simp [hvalue]⟩
      rwa [← mem_some_iff.mp hkey']

theorem accounted_release (h : Accounted uuid s) {a : ℕ}
    (halone : ReleasesAlone uuid s (.release a)) :
    Accounted uuid (s.release uuid a) := by
  cases hacquisition : s.acquisitions[a]? with
  | none =>
    have hsame : s.release uuid a = s := by
      simp only [LockState.release, hacquisition]
    rw [hsame]
    exact h
  | some acquisition =>
    rcases release_cases uuid (mem_def.mpr hacquisition) with
      ⟨key, hkey, hvalue, hrelease⟩ | ⟨hvalue, hrelease⟩
    · -- The key was there with the uuid: by the condition the acquisition has set it.
      obtain ⟨other, hother, hholds, hother'⟩ := h.holds_setBy hkey
      have hown : a = key.setBy :=
        halone acquisition hacquisition key.setBy other hother hholds (hother'.symm.trans hvalue)
      rw [hrelease]
      refine ⟨fun key' hkey' ↦ absurd hkey' (not_mem_none key'), fun b hb ↦ ?_, ?_⟩
      · obtain ⟨hne, hb⟩ := holds_of_set_released hb
        obtain ⟨key', hkey', hsetBy⟩ := h.holds b hb
        rw [mem_unique hkey' (mem_get_iff.mp hkey).1] at hsetBy
        exact absurd (hsetBy.symm.trans hown.symm) hne
      · rw [forall_mem_append, forall_mem_singleton]
        exact ⟨h.own, hown⟩
    · -- The key has expired or has another uuid, so it was not set by this acquisition and there.
      rw [hrelease]
      refine ⟨fun key hkey ↦ ?_, fun b hb ↦ ?_, h.own⟩
      · obtain ⟨other, hother, hother', hexpires, hreleased⟩ := h.key key hkey
        by_cases hab : a = key.setBy
        · subst hab
          obtain rfl := mem_unique hother (mem_def.mpr hacquisition)
          have hself : ({ other with released := true } : Acquisition Backend) ∈
              (s.acquisitions.set key.setBy { other with released := true })[key.setBy]? := by
            rw [mem_def, getElem?_set_self', mem_def.mp hother]
            rfl
          refine ⟨_, hself, hother', hexpires, fun halive ↦ ?_⟩
          exact absurd hother' (hvalue key (mem_get_iff.mpr ⟨hkey, halive⟩))
        · refine ⟨other, ?_, hother', hexpires, hreleased⟩
          rwa [mem_def, getElem?_set_ne hab]
      · obtain ⟨_, hb⟩ := holds_of_set_released hb
        exact h.holds b hb

theorem accounted_step (h : Accounted uuid s) {event : LockEvent Backend}
    (halone : ReleasesAlone uuid s event) : Accounted uuid (s.step uuid event) := by
  cases event with
  | clock time =>
    rw [LockState.step]
    by_cases hle : s.now ≤ time
    · rw [if_pos hle]
      exact accounted_clock h hle
    · rw [if_neg hle]
      exact h
  | acquire lock => exact accounted_acquire h lock
  | release a => exact accounted_release h halone

theorem releasesAlone_of_exclusive (h : Accounted uuid s) {event : LockEvent Backend}
    (hexclusive : Exclusive (s.step uuid event)) : ReleasesAlone uuid s event := by
  cases event with
  | clock | acquire => trivial
  | release a =>
    intro acquisition hmem b other hother hholds huuid
    obtain ⟨key, hkey, rfl, hvalue⟩ := h.get_of_holds hother hholds
    rcases release_cases uuid hmem with ⟨key', hkey', -, hrelease⟩ | ⟨hne, -⟩
    · have hown := hexclusive.own (a, key'.setBy)
      rw [mem_unique hkey' hkey] at hown
      refine hown ?_
      rw [LockState.step, hrelease, mem_unique hkey' hkey]
      exact mem_append_right _ (mem_singleton_self _)
    · exact absurd (hvalue.trans huuid) (hne key hkey)

theorem accounted_init (uuid : Backend → Uuid) (start : ℚ) :
    Accounted uuid (locking uuid start).init := by
  refine ⟨fun key hkey ↦ absurd hkey (not_mem_none key), fun a ha ↦ ?_,
    fun deletion h ↦ absurd h not_mem_nil⟩
  obtain ⟨acquisition, hmem, -⟩ := ha
  exact absurd hmem (by simp [locking])

/-- No release of a run deletes the lock of another acquisition, and at most one acquisition holds
the lock at any time, if and only if no release comes when another acquisition through the same
backend holds the lock. -/
theorem exclusive_iff_everyStep (uuid : Backend → Uuid) (start : ℚ)
    (events : List (LockEvent Backend)) :
    (∀ first, first <+: events → Exclusive ((locking uuid start).run first)) ↔
      (locking uuid start).EveryStep (ReleasesAlone uuid) (locking uuid start).init events :=
  (locking uuid start).forall_prefix_property_iff_everyStep (I := Accounted uuid)
    (fun _ h ↦ h.exclusive) (fun _ _ h halone ↦ accounted_step h halone)
    (fun _ _ h hexclusive ↦ releasesAlone_of_exclusive h hexclusive) (accounted_init uuid start)
    events

/-- The same backend acquires the lock again when the first duration has elapsed; the release of the
first acquisition deletes the lock of the second, and a third one acquires it. -/
def lateRelease : List (LockEvent Unit) :=
  [.acquire ⟨(), 10⟩, .clock 10, .acquire ⟨(), 10⟩, .release 0, .acquire ⟨(), 10⟩]

theorem lateRelease_not_exclusive : ¬ Exclusive ((locking id 0).run lateRelease) := by
  intro h
  have hdeleted :
      ((0, 1) : ℕ × ℕ) ∈ ((locking (id : Unit → Unit) 0).run lateRelease).deletions := by
    decide +kernel
  exact absurd (h.own (0, 1) hdeleted) (by decide)

end Sentry.Locking
