import Sentry.HybridCloud.SiloCache

/-!
# Read after write

Of every version of a key, the writes before it was reached are a lower bound for what is cached
under it: a reader reads the source after it has looked up the version, or has reached it by an
increment of its own. So what a reader finds under the version it has looked up is no older than the
writes before that version, among them every write whose key was cleared by then.
-/

namespace Sentry.HybridCloud.Caching

open Library List Function

variable {Object Record : Type*}

/-- The keys under which a reader works, with their versions. -/
def Phase.keys : Phase Object Record → List (Object × ℕ)
  | .idle => []
  | .versioned versions => versions
  | .decoding values missing _ => values.map (·.1) ++ missing
  | .reading missing read _ => missing ++ read.map (·.1)
  | .adding read _ => read.map (·.1)

def Cached.writes? : Option (Cached Record) → Option ℕ
  | some (.json _ writes) => some writes
  | _ => none

/-- The values that a reader has read under its keys. -/
def Phase.values : Phase Object Record → List ((Object × ℕ) × Option ℕ)
  | .decoding values _ _ => values.map fun value ↦ (value.1, Cached.writes? value.2)
  | .reading _ read _ => read.map fun value ↦ (value.1, some value.2.writes)
  | .adding read _ => read.map fun value ↦ (value.1, some value.2.writes)
  | _ => []

def Phase.found : Phase Object Record → List (Object × Source Record)
  | .decoding _ _ found | .reading _ _ found | .adding _ found => found
  | _ => []

namespace State

/-- A reader works under versions reached after what it has to see, and has no older values. -/
structure Sound (s : State Object Record) (reader : Reader Object Record) : Prop where
  keys : ∀ key ∈ reader.phase.keys,
    key.2 ≤ s.version key.1 ∧ reader.required key.1 ≤ s.born key.1 key.2
  values : ∀ value ∈ reader.phase.values, ∀ writes ∈ value.2, s.born value.1.1 value.1.2 ≤ writes
  found : ∀ item ∈ reader.phase.found, reader.required item.1 ≤ item.2.writes

/-- The writes before a version was reached are a lower bound for what is cached under it. -/
structure Fresh (s : State Object Record) : Prop where
  cleared : ∀ object, s.cleared object ≤ s.born object (s.version object)
  born : ∀ object version, version ≤ s.version object →
    s.born object version ≤ (s.source object).writes
  uncleared : ∀ writer object writes, s.uncleared writer = some (object, writes) →
    writes ≤ (s.source object).writes
  cached : ∀ object version entry, s.cache object version = some entry → version ≤ s.version object
  cache : ∀ object version, ∀ writes ∈ Cached.writes? (s.cache object version),
    s.born object version ≤ writes
  readers : ∀ r, s.Sound (s.readers r)
  answers : ∀ answer ∈ s.answers, answer.required ≤ answer.value.writes

variable {s : State Object Record}

theorem Fresh.setReader (h : s.Fresh) {r : ℕ} {reader : Reader Object Record}
    (hreader : s.Sound reader) :
    { s with readers := Function.update s.readers r reader }.Fresh := by
  refine ⟨h.cleared, h.born, h.uncleared, h.cached, h.cache, fun r' ↦ ?_, h.answers⟩
  have hsound : s.Sound (Function.update s.readers r reader r') := by
    rw [update_apply]
    by_cases hr : r' = r
    · rwa [if_pos hr]
    · rw [if_neg hr]
      exact h.readers r'
  exact ⟨hsound.keys, hsound.values, hsound.found⟩

theorem Fresh.setPhase (h : s.Fresh) {r : ℕ} {phase : Phase Object Record}
    (hreader : s.Sound { s.readers r with phase := phase }) : (s.setPhase r phase).Fresh :=
  h.setReader hreader

theorem key_mem_keys {phase : Phase Object Record} :
    ∀ value ∈ phase.values, value.1 ∈ phase.keys := by
  intro value hvalue
  cases phase with
  | idle | versioned => simp [Phase.values] at hvalue
  | decoding values missing found =>
    obtain ⟨v, hv, rfl⟩ := List.mem_map.mp hvalue
    exact mem_append_left _ (mem_map_of_mem hv)
  | reading missing read found =>
    obtain ⟨v, hv, rfl⟩ := List.mem_map.mp hvalue
    exact mem_append_right _ (mem_map_of_mem hv)
  | adding read found =>
    obtain ⟨v, hv, rfl⟩ := List.mem_map.mp hvalue
    exact mem_map_of_mem hv

variable [DecidableEq Object]

theorem version_incrVersion (object other : Object) : (s.incrVersion object).version other =
      if other = object then s.version object + 1 else s.version other := by
  show (Function.update s.versions object (some (s.version object + 1)) other).getD 0 = _
  by_cases ho : other = object
  · rw [ho, update_self, if_pos rfl, Option.getD_some]
  · rw [update_of_ne ho, if_neg ho]
    rfl

theorem le_version_incrVersion (object other : Object) :
    s.version other ≤ (s.incrVersion object).version other := by
  rw [version_incrVersion]
  by_cases ho : other = object
  · rw [if_pos ho, ho]
    exact Nat.le_succ _
  · rw [if_neg ho]

theorem born_incrVersion_self (object : Object) :
    (s.incrVersion object).born object (s.version object + 1) = (s.source object).writes := by
  show Function.update s.born object _ object _ = _
  rw [update_self, update_self]

theorem born_incrVersion_of_le {object other : Object} {version : ℕ}
    (hle : version ≤ s.version other) :
    (s.incrVersion object).born other version = s.born other version := by
  show Function.update s.born object _ other version = _
  by_cases ho : other = object
  · subst ho
    rw [update_self, update_of_ne (by omega)]
  · rw [update_of_ne ho]

theorem Sound.incrVersion {reader : Reader Object Record} (h : s.Sound reader)
    (hkeys : ∀ value ∈ reader.phase.values, value.1 ∈ reader.phase.keys) (object : Object) :
    (s.incrVersion object).Sound reader where
  keys key hkey := by
    obtain ⟨hle, hrequired⟩ := h.keys key hkey
    rw [born_incrVersion_of_le hle]
    exact ⟨hle.trans (le_version_incrVersion object key.1), hrequired⟩
  values value hvalue writes hwrites := by
    rw [born_incrVersion_of_le (h.keys value.1 (hkeys value hvalue)).1]
    exact h.values value hvalue writes hwrites
  found := h.found

theorem Fresh.incrVersion (h : s.Fresh) (object : Object) : (s.incrVersion object).Fresh where
  cleared other := by
    rw [version_incrVersion]
    by_cases ho : other = object
    · subst ho
      rw [if_pos rfl, born_incrVersion_self]
      exact (h.cleared other).trans (h.born other _ (Nat.le_refl _))
    · rw [if_neg ho, born_incrVersion_of_le (Nat.le_refl _)]
      exact h.cleared other
  born other version hle := by
    show (s.incrVersion object).born other version ≤ (s.source other).writes
    by_cases hold : version ≤ s.version other
    · rw [born_incrVersion_of_le hold]
      exact h.born other version hold
    · rw [version_incrVersion] at hle
      by_cases ho : other = object
      · subst ho
        rw [if_pos rfl] at hle
        obtain rfl : version = s.version other + 1 := by omega
        rw [born_incrVersion_self]
      · rw [if_neg ho] at hle
        exact absurd hle hold
  uncleared := h.uncleared
  cached other version entry hentry :=
    (h.cached other version entry hentry).trans (le_version_incrVersion object other)
  cache other version writes hwrites := by
    have hentry : ∃ entry, s.cache other version = some entry := by
      cases hcache : s.cache other version with
      | none =>
        rw [show (s.incrVersion object).cache other version = none from hcache] at hwrites
        simp [Cached.writes?] at hwrites
      | some entry => exact ⟨entry, rfl⟩
    obtain ⟨entry, hentry⟩ := hentry
    rw [born_incrVersion_of_le (h.cached other version entry hentry)]
    exact h.cache other version writes hwrites
  readers r := (h.readers r).incrVersion key_mem_keys object
  answers := h.answers

theorem Fresh.setEntry (h : s.Fresh) {object : Object} {version : ℕ}
    {entry : Option (Cached Record)} (hversion : ∀ e ∈ entry, version ≤ s.version object)
    (hwrites : ∀ writes ∈ Cached.writes? entry, s.born object version ≤ writes) :
    (s.setEntry object version entry).Fresh := by
  have hcache : ∀ o k, (s.setEntry object version entry).cache o k =
      if o = object ∧ k = version then entry else s.cache o k := by
    intro o k
    show Function.update s.cache object _ o k = _
    by_cases ho : o = object
    · subst ho
      rw [update_self, update_apply]
      simp
    · rw [update_of_ne ho, if_neg fun h ↦ ho h.1]
  refine ⟨h.cleared, h.born, h.uncleared, fun o k e he ↦ ?_, fun o k writes hw ↦ ?_,
    fun r ↦ ⟨(h.readers r).keys, (h.readers r).values, (h.readers r).found⟩, h.answers⟩
  · rw [hcache] at he
    by_cases hok : o = object ∧ k = version
    · rw [if_pos hok] at he
      obtain ⟨rfl, rfl⟩ := hok
      exact hversion e he
    · rw [if_neg hok] at he
      exact h.cached o k e he
  · rw [hcache] at hw
    by_cases hok : o = object ∧ k = version
    · rw [if_pos hok] at hw
      obtain ⟨rfl, rfl⟩ := hok
      exact hwrites writes hw
    · rw [if_neg hok] at hw
      exact h.cache o k writes hw

theorem fresh_write (h : s.Fresh) (w : ℕ) (object : Object) (record : Option Record) :
    (s.write w object record).Fresh := by
  unfold write
  split
  case h_1 =>
    have hwrites : ∀ o, (s.source o).writes ≤ (Function.update s.source object
        ⟨record, (s.source object).writes + 1⟩ o).writes := by
      intro o
      rw [update_apply]
      by_cases ho : o = object
      · rw [if_pos ho, ho]
        exact Nat.le_succ _
      · rw [if_neg ho]
    refine ⟨h.cleared, fun o k hk ↦ (h.born o k hk).trans (hwrites o), fun w' o n hn ↦ ?_, h.cached,
      h.cache, fun r ↦ ⟨(h.readers r).keys, (h.readers r).values, (h.readers r).found⟩, h.answers⟩
    show n ≤ (Function.update s.source object _ o).writes
    have hn' : Function.update s.uncleared w (some (object, (s.source object).writes + 1)) w' =
        some (o, n) := hn
    by_cases hw : w' = w
    · rw [hw, update_self, Option.some.injEq] at hn'
      obtain ⟨rfl, rfl⟩ := Prod.mk.inj hn'
      rw [update_self]
    · rw [update_of_ne hw] at hn'
      exact (h.uncleared w' o n hn').trans (hwrites o)
  case h_2 => exact h

theorem fresh_clearKey (h : s.Fresh) (w : ℕ) : (s.clearKey w).Fresh := by
  unfold clearKey
  split
  case h_1 object writes huncleared =>
    have hincr := h.incrVersion object
    refine ⟨fun o ↦ ?_, hincr.born, fun w' o n hn ↦ ?_, hincr.cached, hincr.cache,
      fun r ↦ ⟨(hincr.readers r).keys, (hincr.readers r).values, (hincr.readers r).found⟩,
      hincr.answers⟩
    · show Function.update s.cleared object (max (s.cleared object) writes) o ≤ _
      by_cases ho : o = object
      · subst ho
        rw [update_self]
        refine max_le (hincr.cleared o) ?_
        show writes ≤ (s.incrVersion o).born o ((s.incrVersion o).version o)
        rw [version_incrVersion, if_pos rfl, born_incrVersion_self]
        exact h.uncleared w o writes huncleared
      · rw [update_of_ne ho]
        exact hincr.cleared o
    · have hn' : Function.update s.uncleared w none w' = some (o, n) := hn
      rw [update_apply] at hn'
      by_cases hw : w' = w
      · simp [hw] at hn'
      · rw [if_neg hw] at hn'
        exact h.uncleared w' o n hn'
  case h_2 => exact h

theorem fresh_getVersions (h : s.Fresh) (r : ℕ) (objects : List Object) :
    (s.getVersions r objects).Fresh := by
  unfold getVersions
  split
  case h_1 =>
    refine h.setReader ⟨fun key hkey ↦ ?_, fun value hvalue ↦ ?_, fun item hitem ↦ ?_⟩
    · obtain ⟨object, -, rfl⟩ := List.mem_map.mp hkey
      exact ⟨Nat.le_refl _, h.cleared object⟩
    · simp [Phase.values] at hvalue
    · simp [Phase.found] at hitem
  case h_2 => exact h

omit [DecidableEq Object] in
theorem fresh_getMany (h : s.Fresh) (r : ℕ) : (s.getMany r).Fresh := by
  unfold getMany
  split
  case h_1 versions hphase =>
    have hsound := h.readers r
    refine h.setPhase ⟨fun key hkey ↦ ?_, fun value hvalue writes hwrites ↦ ?_, fun item hitem ↦ ?_⟩
    · have hmem : key ∈ versions := by simpa [Phase.keys] using hkey
      exact hsound.keys key (by rwa [hphase])
    · simp only [Phase.values, map_map, mem_map] at hvalue
      obtain ⟨key, -, rfl⟩ := hvalue
      exact h.cache key.1 key.2 writes hwrites
    · simp [Phase.found] at hitem
  case h_2 => exact h

theorem fresh_decode (h : s.Fresh) (r : ℕ) : (s.decode r).Fresh := by
  unfold decode
  have hsound := h.readers r
  split
  case h_1 key record writes rest missing found hphase =>
    have hkeys : ∀ k ∈ key :: (rest.map (·.1) ++ missing),
        k.2 ≤ s.version k.1 ∧ (s.readers r).required k.1 ≤ s.born k.1 k.2 := fun k hk ↦
      hsound.keys k (by rw [hphase]; exact hk)
    refine h.setPhase ⟨fun k hk ↦ hkeys k (mem_cons_of_mem _ hk), fun value hvalue ↦ ?_,
      fun item hitem ↦ ?_⟩
    · refine hsound.values value ?_
      rw [hphase]
      exact mem_cons_of_mem _ hvalue
    · rcases eq_or_mem_of_mem_setItem hitem with rfl | hold
      · have hborn : s.born key.1 key.2 ≤ writes :=
          hsound.values (key, some writes) (by rw [hphase]; exact mem_cons_self) writes rfl
        exact (hkeys key mem_cons_self).2.trans hborn
      · exact hsound.found item (by rw [hphase]; exact hold)
  case h_2 key rest missing found hphase =>
    have hkeys : ∀ k ∈ key :: (rest.map (·.1) ++ missing),
        k.2 ≤ s.version k.1 ∧ (s.readers r).required k.1 ≤ s.born k.1 k.2 := fun k hk ↦
      hsound.keys k (by rw [hphase]; exact hk)
    have hincr := hsound.incrVersion key_mem_keys key.1
    refine (h.incrVersion key.1).setPhase
      ⟨fun k hk ↦ ?_, fun value hvalue ↦ ?_, fun item hitem ↦ ?_⟩
    · rcases mem_append.mp hk with hrest | hmissing
      · exact hincr.keys k (by
          rw [hphase]
          exact mem_cons_of_mem _ (mem_append_left _ hrest))
      · rcases eq_or_mem_of_mem_setItem hmissing with rfl | hold
        · -- the version that the reader has reached itself
          obtain ⟨hle, hrequired⟩ := hkeys key mem_cons_self
          rw [version_incrVersion, if_pos rfl, born_incrVersion_self]
          exact ⟨Nat.le_refl _, hrequired.trans (h.born key.1 key.2 hle)⟩
        · exact hincr.keys k (by
            rw [hphase]
            exact mem_cons_of_mem _ (mem_append_right _ hold))
    · refine hincr.values value ?_
      rw [hphase]
      exact mem_cons_of_mem _ hvalue
    · exact hsound.found item (by rw [hphase]; exact hitem)
  case h_3 key rest missing found hphase =>
    have hkeys : ∀ k ∈ key :: (rest.map (·.1) ++ missing),
        k.2 ≤ s.version k.1 ∧ (s.readers r).required k.1 ≤ s.born k.1 k.2 := fun k hk ↦
      hsound.keys k (by rw [hphase]; exact hk)
    refine h.setPhase ⟨fun k hk ↦ hkeys k ?_, fun value hvalue ↦ ?_, fun item hitem ↦ ?_⟩
    · rcases mem_append.mp hk with hrest | hmissing
      · exact mem_cons_of_mem _ (mem_append_left _ hrest)
      · rcases eq_or_mem_of_mem_setItem hmissing with rfl | hold
        · exact mem_cons_self
        · exact mem_cons_of_mem _ (mem_append_right _ hold)
    · refine hsound.values value ?_
      rw [hphase]
      exact mem_cons_of_mem _ hvalue
    · exact hsound.found item (by rw [hphase]; exact hitem)
  case h_4 missing found hphase =>
    refine h.setPhase ⟨fun k hk ↦ hsound.keys k ?_, fun value hvalue ↦ ?_, fun item hitem ↦ ?_⟩
    · rw [hphase]
      simpa [Phase.keys] using hk
    · simp [Phase.values] at hvalue
    · exact hsound.found item (by rw [hphase]; exact hitem)
  case h_5 => exact h

theorem fresh_read (h : s.Fresh) (r : ℕ) (object : Object) : (s.read r object).Fresh := by
  unfold read
  have hsound := h.readers r
  split
  case h_1 missing read found hphase =>
    split
    case h_1 version hget =>
      have hmem : (object, version) ∈ missing := mem_of_getItem hget
      have hkeys : ∀ k ∈ missing ++ read.map (·.1),
          k.2 ≤ s.version k.1 ∧ (s.readers r).required k.1 ≤ s.born k.1 k.2 := fun k hk ↦
        hsound.keys k (by rw [hphase]; exact hk)
      refine h.setPhase ⟨fun k hk ↦ hkeys k ?_, fun value hvalue ↦ ?_, fun item hitem ↦ ?_⟩
      · simp only [Phase.keys, map_append, map_cons, map_nil, mem_append, mem_singleton] at hk
        rcases hk with hmissing | hread | rfl
        · exact mem_append_left _ (mem_of_mem_filter hmissing)
        · exact mem_append_right _ hread
        · exact mem_append_left _ hmem
      · simp only [Phase.values, map_append, map_cons, map_nil, mem_append, mem_singleton] at hvalue
        rcases hvalue with hold | rfl
        · refine hsound.values value ?_
          rw [hphase]
          exact hold
        · intro writes hwrites
          obtain rfl : (s.source object).writes = writes := by simpa using hwrites
          exact h.born object version (hkeys _ (mem_append_left _ hmem)).1
      · exact hsound.found item (by rw [hphase]; exact hitem)
    case h_2 => exact h
  case h_2 => exact h

omit [DecidableEq Object] in
theorem fresh_callback (h : s.Fresh) (r : ℕ) : (s.callback r).Fresh := by
  unfold callback
  have hsound := h.readers r
  split
  case h_1 read found hphase =>
    refine h.setPhase ⟨fun k hk ↦ hsound.keys k ?_, fun value hvalue ↦ hsound.values value ?_,
      fun item hitem ↦ hsound.found item ?_⟩
    all_goals rwa [hphase]
  case h_2 => exact h

theorem fresh_setCache (h : s.Fresh) (r : ℕ) : (s.setCache r).Fresh := by
  unfold setCache
  have hsound := h.readers r
  split
  case h_1 key value rest found hphase =>
    have hkey := hsound.keys key (by rw [hphase]; exact mem_cons_self)
    have hborn : s.born key.1 key.2 ≤ value.writes :=
      hsound.values (key, some value.writes) (by rw [hphase]; exact mem_cons_self) _ rfl
    have hnext : s.Sound
        { s.readers r with phase := .adding rest (setItem key.1 value found) } := by
      refine ⟨fun k hk ↦ hsound.keys k ?_, fun v hv ↦ hsound.values v ?_, fun item hitem ↦ ?_⟩
      · rw [hphase]
        exact mem_cons_of_mem _ hk
      · rw [hphase]
        exact mem_cons_of_mem _ hv
      · rcases eq_or_mem_of_mem_setItem hitem with rfl | hold
        · exact hkey.2.trans hborn
        · exact hsound.found item (by rw [hphase]; exact hold)
    split
    case h_1 record hrecord hcache =>
      have hentry : (s.setEntry key.1 key.2 (some (.json record value.writes))).Fresh := by
        refine h.setEntry (fun _ _ ↦ hkey.1) fun writes hwrites ↦ ?_
        obtain rfl : value.writes = writes := by simpa [Cached.writes?] using hwrites
        exact hborn
      exact hentry.setPhase ⟨hnext.keys, hnext.values, hnext.found⟩
    case h_2 => exact h.setPhase hnext
  case h_2 => exact h

omit [DecidableEq Object] in
theorem fresh_answer (h : s.Fresh) (r : ℕ) : (s.answer r).Fresh := by
  unfold answer
  have hsound := h.readers r
  split
  case h_1 found hphase =>
    have hanswers : { s with
        answers := s.answers ++ answersOf (s.readers r).required found }.Fresh := by
      refine ⟨h.cleared, h.born, h.uncleared, h.cached, h.cache, fun r' ↦ ?_,
        fun answer hanswer ↦ ?_⟩
      · exact ⟨(h.readers r').keys, (h.readers r').values, (h.readers r').found⟩
      · rcases mem_append.mp hanswer with hold | hnew
        · exact h.answers answer hold
        · obtain ⟨item, hitem, rfl⟩ := List.mem_map.mp hnew
          exact hsound.found item (by rw [hphase]; exact hitem)
    refine hanswers.setPhase ⟨fun k hk ↦ ?_, fun value hvalue ↦ ?_, fun item hitem ↦ ?_⟩
    · simp [Phase.keys] at hk
    · simp [Phase.values] at hvalue
    · simp [Phase.found] at hitem
  case h_2 => exact h

theorem fresh_corrupt (h : s.Fresh) (object : Object) (version : ℕ) :
    (s.corrupt object version).Fresh := by
  unfold corrupt
  split
  case h_1 entry hentry =>
    refine h.setEntry (fun _ _ ↦ h.cached object version entry hentry) fun writes hwrites ↦ ?_
    simp [Cached.writes?] at hwrites
  case h_2 => exact h

theorem fresh_step (h : s.Fresh) (event : Event Object Record) : (s.step event).Fresh := by
  cases event with
  | write w object record => exact fresh_write h w object record
  | clearKey w => exact fresh_clearKey h w
  | getVersions r objects => exact fresh_getVersions h r objects
  | getMany r => exact fresh_getMany h r
  | decode r => exact fresh_decode h r
  | read r object => exact fresh_read h r object
  | callback r => exact fresh_callback h r
  | setCache r => exact fresh_setCache h r
  | answer r => exact fresh_answer h r
  | evict object version =>
    refine h.setEntry (fun e he ↦ ?_) fun writes hwrites ↦ ?_
    · simp at he
    · simp [Cached.writes?] at hwrites
  | corrupt object version => exact fresh_corrupt h object version

end State

variable [DecidableEq Object]

theorem fresh_init (rows : Object → Option Record) : (siloCache rows).init.Fresh where
  cleared _ := Nat.le_refl 0
  born _ _ _ := Nat.le_refl 0
  uncleared w object writes h := by simp [siloCache] at h
  cached object version entry h := by simp [siloCache] at h
  cache object version writes h := by simp [siloCache, Cached.writes?] at h
  readers r := by
    refine ⟨fun k hk ↦ ?_, fun value hvalue ↦ ?_, fun item hitem ↦ ?_⟩
    · simp [siloCache, Phase.keys] at hk
    · simp [siloCache, Phase.values] at hvalue
    · simp [siloCache, Phase.found] at hitem
  answers answer h := by simp [siloCache] at h

/-- In every run, what a reader returns for an object is no older than any write whose key was
cleared before the read began. -/
theorem required_le_writes (rows : Object → Option Record) (events : List (Event Object Record)) :
    ∀ answer ∈ ((siloCache rows).run events).answers, answer.required ≤ answer.value.writes :=
  ((siloCache rows).run_invariant (I := State.Fresh) (fresh_init rows)
    (fun _ event h ↦ State.fresh_step h event) events).answers

/-- A write whose key is cleared, and a reader after it. -/
def writeThenRead : List (Event ℕ ℕ) :=
  [.write 0 0 (some 7), .clearKey 0, .getVersions 1 [0], .getMany 1, .decode 1, .decode 1,
    .read 1 0, .callback 1, .setCache 1, .answer 1]

theorem required_le_writes_writeThenRead :
    ∃ answer ∈ ((siloCache fun _ ↦ none).run writeThenRead).answers,
      answer.required = 1 ∧ answer.required ≤ answer.value.writes := by
  have hanswer : ((siloCache fun _ ↦ none).run writeThenRead).answers = [⟨0, 1, ⟨some 7, 1⟩⟩] := rfl
  refine ⟨_, hanswer ▸ mem_singleton_self _, rfl, ?_⟩
  exact required_le_writes (fun _ ↦ none) writeThenRead _ (hanswer ▸ mem_singleton_self _)

end Sentry.HybridCloud.Caching
