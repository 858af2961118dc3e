import Mathlib.Data.Rat.Floor
import Mathlib.Tactic.Positivity

/-!
# The leaky bucket

`scripts/ratelimits/leaky_bucket.lua`. A bucket has a level and the time of its last drip. A request
is allowed if what it adds does not overflow the bucket, and only then are the level and the time
stored. Its time is that of the application server; where it is before the last drip, it counts at
the last drip. The key expires when the bucket has run empty (`find_eq_none`).

What is allowed between two times is at most the size of the bucket and what drips in between
(`amount_bucketTime_le`), if every request counts at the time of the bucket. At the times of the
application servers it can be more (`amount_exceeds`).
-/

namespace Sentry.RateLimits.LeakyBucket

open List

/-- The bucket: how much it holds, and how much leaks every second. -/
structure Limiter where
  bucketSize : ℚ
  dripRate : ℚ
  bucketSize_nonneg : 0 ≤ bucketSize
  dripRate_pos : 0 < dripRate

/-- A request, with the time of the application server and that of Redis when it arrives. -/
structure Request where
  currentTime : ℚ
  redisTime : ℚ
  incrBy : ℚ
  incrBy_pos : 0 < incrBy

variable (limiter : Limiter)

/-- The hash under the key, and when the key expires. -/
structure Stored where
  currentLevel : ℚ
  lastDrip : ℚ
  expiresAt : ℚ
  currentLevel_le : currentLevel ≤ limiter.bucketSize

/-- `LeakyBucketLimitInfo` -/
structure LimitInfo where
  burstLimit : ℚ
  dripRate : ℚ
  lastDrip : ℚ
  currentLevel : ℚ
  waitTime : ℚ

/-- `max_tll_seconds` -/
def Limiter.maxTtlSeconds : ℤ := ⌈limiter.bucketSize / limiter.dripRate⌉ + 2

def Limiter.drained (level elapsedTime : ℚ) : ℚ := max 0 (level - elapsedTime * limiter.dripRate)

variable {limiter}

/-- The key is there until it expires. -/
def find (state : Option (Stored limiter)) (request : Request) : Option (Stored limiter) :=
  state.filter fun stored ↦ request.redisTime < stored.expiresAt

/-- `last_drip` -/
def lastDrip (state : Option (Stored limiter)) (request : Request) : ℚ :=
  ((find state request).map Stored.lastDrip).getD request.currentTime

/-- `current_time`, which does not go backwards. -/
def currentTime (state : Option (Stored limiter)) (request : Request) : ℚ :=
  max request.currentTime (lastDrip state request)

/-- `current_level` -/
def currentLevel (state : Option (Stored limiter)) (request : Request) : ℚ :=
  ((find state request).map Stored.currentLevel).getD 0

/-- `new_level` -/
def newLevel (state : Option (Stored limiter)) (request : Request) : ℚ :=
  limiter.drained (currentLevel state request)
    (currentTime state request - lastDrip state request) + request.incrBy

/-- `allowed` -/
def allowed (state : Option (Stored limiter)) (request : Request) : Prop :=
  newLevel state request ≤ limiter.bucketSize

instance (state : Option (Stored limiter)) (request : Request) :
    Decidable (allowed state request) :=
  inferInstanceAs (Decidable (_ ≤ _))

/-- `wait_time` -/
def waitTime (state : Option (Stored limiter)) (request : Request) : ℚ :=
  if allowed state request then 0
  else (newLevel state request - limiter.bucketSize) / limiter.dripRate

def next (state : Option (Stored limiter)) (request : Request) : Option (Stored limiter) :=
  if h : allowed state request then
    some ⟨newLevel state request, currentTime state request,
      request.redisTime + limiter.maxTtlSeconds, h⟩
  else state

/-- The script, with what it returns. -/
def leakyBucket (state : Option (Stored limiter)) (request : Request) :
    LimitInfo × Option (Stored limiter) :=
  (⟨limiter.bucketSize, limiter.dripRate, lastDrip state request, currentLevel state request,
    waitTime state request⟩, next state request)

/-- A request that was allowed: its time, the time at which it counts, and how much it added. -/
structure Admission where
  callTime : ℚ
  bucketTime : ℚ
  amount : ℚ

def admissions : Option (Stored limiter) → List Request → List Admission
  | _, [] => []
  | state, request :: rest =>
    if (leakyBucket state request).1.waitTime = 0 then
      ⟨request.currentTime, currentTime state request, request.incrBy⟩ ::
        admissions (leakyBucket state request).2 rest
    else admissions (leakyBucket state request).2 rest

/-- What is allowed if there is no key at first. -/
def Limiter.admitted (limiter : Limiter) (requests : List Request) : List Admission :=
  admissions (none : Option (Stored limiter)) requests

/-- The amount that is allowed at the times from one to another, by a clock. -/
def amount (clock : Admission → ℚ) (start stop : ℚ) (admitted : List Admission) : ℚ :=
  ((admitted.filter fun admission ↦ start ≤ clock admission ∧ clock admission ≤ stop).map
    Admission.amount).sum

section Drained

variable (limiter) (level : ℚ) {x y : ℚ}

theorem drained_nonneg : 0 ≤ limiter.drained level x := le_max_left _ _

theorem drained_mono {level' : ℚ} (h : level ≤ level') :
    limiter.drained level x ≤ limiter.drained level' x :=
  max_le_max le_rfl (sub_le_sub_right h _)

theorem drained_le (hlevel : level ≤ limiter.bucketSize) (hx : 0 ≤ x) :
    limiter.drained level x ≤ limiter.bucketSize := by
  refine max_le limiter.bucketSize_nonneg ?_
  have hdrip : 0 ≤ x * limiter.dripRate := mul_nonneg hx limiter.dripRate_pos.le
  linarith

theorem drained_drained (hy : 0 ≤ y) :
    limiter.drained (limiter.drained level x) y = limiter.drained level (x + y) := by
  have hdrip : 0 ≤ y * limiter.dripRate := mul_nonneg hy limiter.dripRate_pos.le
  have hsplit : (x + y) * limiter.dripRate = x * limiter.dripRate + y * limiter.dripRate :=
    add_mul _ _ _
  unfold Limiter.drained
  rcases le_total (level - x * limiter.dripRate) 0 with h | h
  · rw [max_eq_left h, max_eq_left (by linarith), max_eq_left (by linarith)]
  · rw [max_eq_right h, hsplit, sub_sub]

theorem drained_le_add (hy : 0 ≤ y) :
    limiter.drained level x ≤ limiter.drained level (x + y) + y * limiter.dripRate := by
  have hdrip : 0 ≤ y * limiter.dripRate := mul_nonneg hy limiter.dripRate_pos.le
  unfold Limiter.drained
  rw [add_mul, ← max_add_add_right]
  refine max_le_max ?_ ?_ <;> linarith

theorem drained_eq_zero (hlevel : level ≤ limiter.bucketSize)
    (hx : limiter.bucketSize / limiter.dripRate ≤ x) : limiter.drained level x = 0 := by
  have hempty : limiter.bucketSize ≤ x * limiter.dripRate :=
    (div_le_iff₀ limiter.dripRate_pos).mp hx
  exact max_eq_left (by linarith)

end Drained

/-- The clocks are close enough: the times of two requests agree with Redis up to the two seconds
that the script adds for clock drift, where a key that the first one sets expires before the second
one. -/
def ClocksAgree (limiter : Limiter) (earlier later : Request) : Prop :=
  earlier.redisTime ≤ later.redisTime ∧
    (earlier.redisTime + limiter.maxTtlSeconds ≤ later.redisTime →
      earlier.currentTime - earlier.redisTime ≤ later.currentTime - later.redisTime + 2)

instance : DecidableRel (ClocksAgree limiter) :=
  fun _ _ ↦ inferInstanceAs (Decidable (_ ∧ (_ → _)))

theorem waitTime_eq_zero (state : Option (Stored limiter)) (request : Request) :
    waitTime state request = 0 ↔ allowed state request := by
  unfold waitTime
  by_cases h : allowed state request
  · simp [h]
  · have hwait : 0 < (newLevel state request - limiter.bucketSize) / limiter.dripRate :=
      div_pos (sub_pos.mpr (not_le.mp h)) limiter.dripRate_pos
    simp [h, hwait.ne']

section

variable {state : Option (Stored limiter)} {request : Request}

theorem admissions_of_allowed (h : allowed state request) (rest : List Request) :
    admissions state (request :: rest) =
      ⟨request.currentTime, currentTime state request, request.incrBy⟩ ::
        admissions (some ⟨newLevel state request, currentTime state request,
          request.redisTime + limiter.maxTtlSeconds, h⟩) rest := by
  simp [admissions, leakyBucket, waitTime_eq_zero, h, next]

theorem admissions_of_not_allowed (h : ¬ allowed state request) (rest : List Request) :
    admissions state (request :: rest) = admissions state rest := by
  simp [admissions, leakyBucket, waitTime_eq_zero, h, next]

end

theorem newLevel_none (request : Request) :
    newLevel (none : Option (Stored limiter)) request = request.incrBy := by
  simp [newLevel, currentLevel, currentTime, lastDrip, find, Limiter.drained]

theorem currentTime_none (request : Request) :
    currentTime (none : Option (Stored limiter)) request = request.currentTime := by
  simp [currentTime, lastDrip, find]

section Some

variable {stored : Stored limiter} {request : Request}

theorem find_eq_none (h : stored.expiresAt ≤ request.redisTime) :
    find (some stored) request = none := by
  simp [find, h]

theorem find_eq_some (h : request.redisTime < stored.expiresAt) :
    find (some stored) request = some stored := by
  simp [find, h]

theorem currentTime_of_live (h : request.redisTime < stored.expiresAt) :
    currentTime (some stored) request = max request.currentTime stored.lastDrip := by
  simp [currentTime, lastDrip, find_eq_some h]

theorem currentTime_of_expired (h : stored.expiresAt ≤ request.redisTime) :
    currentTime (some stored) request = request.currentTime := by
  simp [currentTime, lastDrip, find_eq_none h]

/-- What is stored was set before a request: if the key has expired since, then the bucket has had
the time to run empty. -/
structure SetBefore (stored : Stored limiter) (request : Request) : Prop where
  expiresAt_le : stored.expiresAt ≤ request.redisTime + limiter.maxTtlSeconds
  empty : stored.expiresAt ≤ request.redisTime →
    stored.lastDrip + limiter.bucketSize / limiter.dripRate ≤ request.currentTime

theorem SetBefore.lastDrip_le_currentTime (h : SetBefore stored request) :
    stored.lastDrip ≤ currentTime (some stored) request := by
  by_cases hlive : request.redisTime < stored.expiresAt
  · rw [currentTime_of_live hlive]
    exact le_max_right _ _
  · have hempty := h.empty (not_lt.mp hlive)
    have hdrain : 0 ≤ limiter.bucketSize / limiter.dripRate :=
      div_nonneg limiter.bucketSize_nonneg limiter.dripRate_pos.le
    rw [currentTime_of_expired (not_lt.mp hlive)]
    linarith

theorem SetBefore.newLevel_eq (h : SetBefore stored request) :
    newLevel (some stored) request =
      limiter.drained stored.currentLevel
        (currentTime (some stored) request - stored.lastDrip) + request.incrBy := by
  by_cases hlive : request.redisTime < stored.expiresAt
  · simp [newLevel, currentTime, currentLevel, lastDrip, find_eq_some hlive]
  · have hnone := find_eq_none (not_lt.mp hlive)
    have hzero : limiter.drained stored.currentLevel
        (request.currentTime - stored.lastDrip) = 0 := by
      apply drained_eq_zero _ _ stored.currentLevel_le
      have hempty := h.empty (not_lt.mp hlive)
      linarith
    rw [currentTime_of_expired (not_lt.mp hlive), hzero]
    simp [newLevel, currentTime, currentLevel, lastDrip, hnone, Limiter.drained]

end Some

theorem setBefore_of_clocksAgree {request later : Request} {level : ℚ}
    (hlevel : level ≤ limiter.bucketSize) (h : ClocksAgree limiter request later) :
    SetBefore ⟨level, request.currentTime, request.redisTime + limiter.maxTtlSeconds, hlevel⟩
      later where
  expiresAt_le := add_le_add_left h.1 _
  empty := by
    intro hexpired
    have hdrift := h.2 hexpired
    have hceil := Int.le_ceil (limiter.bucketSize / limiter.dripRate)
    have httl : (limiter.maxTtlSeconds : ℚ) = ⌈limiter.bucketSize / limiter.dripRate⌉ + 2 := by
      simp [Limiter.maxTtlSeconds]
    linarith

theorem SetBefore.next {stored : Stored limiter} {request later : Request}
    (h : allowed (some stored) request) (hrequest : SetBefore stored request)
    (hlater : SetBefore stored later) (hclocks : ClocksAgree limiter request later) :
    SetBefore ⟨newLevel (some stored) request, currentTime (some stored) request,
      request.redisTime + limiter.maxTtlSeconds, h⟩ later where
  expiresAt_le := add_le_add_left hclocks.1 _
  empty := by
    intro hexpired
    have hexpired' : request.redisTime + limiter.maxTtlSeconds ≤ later.redisTime := hexpired
    have hnow := (setBefore_of_clocksAgree h hclocks).empty hexpired
    have hthen := hlater.empty (hrequest.expiresAt_le.trans hexpired')
    by_cases hlive : request.redisTime < stored.expiresAt
    · rw [currentTime_of_live hlive]
      rcases max_choice request.currentTime stored.lastDrip with hmax | hmax <;> rw [hmax]
      · exact hnow
      · exact hthen
    · rw [currentTime_of_expired (not_lt.mp hlive)]
      exact hnow

section Amount

variable {start stop : ℚ} (callTime : ℚ) {time : ℚ} (added : ℚ) (rest : List Admission)

theorem amount_cons_of_mem (hstart : start ≤ time) (hstop : time ≤ stop) :
    amount Admission.bucketTime start stop (⟨callTime, time, added⟩ :: rest) =
      added + amount Admission.bucketTime start stop rest := by
  simp [amount, hstart, hstop]

theorem amount_cons_of_lt (h : time < start) :
    amount Admission.bucketTime start stop (⟨callTime, time, added⟩ :: rest) =
      amount Admission.bucketTime start stop rest := by
  simp [amount, h]

theorem amount_cons_of_gt (h : stop < time) :
    amount Admission.bucketTime start stop (⟨callTime, time, added⟩ :: rest) =
      amount Admission.bucketTime start stop rest := by
  simp [amount, h]

end Amount

section Bound

variable {start stop : ℚ}

theorem amount_eq_zero (requests : List Request) (stored : Stored limiter)
    (hset : ∀ request ∈ requests, SetBefore stored request)
    (hclocks : requests.Pairwise (ClocksAgree limiter)) (hstop : stop < stored.lastDrip) :
    amount Admission.bucketTime start stop (admissions (some stored) requests) = 0 := by
  induction requests generalizing stored with
  | nil => rfl
  | cons request rest ih =>
    rw [forall_mem_cons] at hset
    rw [pairwise_cons] at hclocks
    have htime := hset.1.lastDrip_le_currentTime
    by_cases hallowed : allowed (some stored) request
    · rw [admissions_of_allowed hallowed, amount_cons_of_gt _ _ _ (hstop.trans_le htime)]
      exact ih _ (fun later hlater ↦ hset.1.next hallowed (hset.2 later hlater)
        (hclocks.1 later hlater)) hclocks.2 (hstop.trans_le htime)
    · rw [admissions_of_not_allowed hallowed]
      exact ih stored hset.2 hclocks.2 hstop

/-- What a bucket has room for between two times: what it does not hold at the first one, or at the
last drip where that is later, and what drips from then on. -/
def Stored.room (stored : Stored limiter) (start stop : ℚ) : ℚ :=
  limiter.bucketSize
    - limiter.drained stored.currentLevel (max start stored.lastDrip - stored.lastDrip)
    + limiter.dripRate * (stop - max start stored.lastDrip)

theorem room_nonneg (stored : Stored limiter) (hle : start ≤ stop)
    (hstop : stored.lastDrip ≤ stop) : 0 ≤ stored.room start stop := by
  have hroom := drained_le limiter stored.currentLevel stored.currentLevel_le
    (sub_nonneg.mpr (le_max_right start stored.lastDrip))
  have hdrip := mul_nonneg limiter.dripRate_pos.le (sub_nonneg.mpr (max_le hle hstop))
  unfold Stored.room
  linarith

theorem room_le (stored : Stored limiter) :
    stored.room start stop ≤ limiter.bucketSize + limiter.dripRate * (stop - start) := by
  have hempty := drained_nonneg limiter stored.currentLevel
    (x := max start stored.lastDrip - stored.lastDrip)
  have hdrip := mul_le_mul_of_nonneg_left
    (sub_le_sub_left (le_max_left start stored.lastDrip) stop) limiter.dripRate_pos.le
  unfold Stored.room
  linarith

theorem room_of_le {level time expiresAt : ℚ} (hlevel : level ≤ limiter.bucketSize)
    (hnonneg : 0 ≤ level) (h : start ≤ time) :
    Stored.room ⟨level, time, expiresAt, hlevel⟩ start stop =
      limiter.bucketSize - level + limiter.dripRate * (stop - time) := by
  show limiter.bucketSize - max 0 (level - (max start time - time) * limiter.dripRate) +
    limiter.dripRate * (stop - max start time) = _
  rw [max_eq_right h, sub_self, zero_mul, sub_zero, max_eq_right hnonneg]

section Step

variable {stored : Stored limiter} {request : Request} {expiresAt : ℚ}

theorem room_next_le (hset : SetBefore stored request) (h : allowed (some stored) request)
    (hstart : currentTime (some stored) request ≤ start) :
    Stored.room ⟨newLevel (some stored) request, currentTime (some stored) request, expiresAt, h⟩
      start stop ≤ stored.room start stop := by
  have htime := hset.lastDrip_le_currentTime
  unfold Stored.room
  rw [max_eq_left hstart, max_eq_left (htime.trans hstart)]
  have hlevel : limiter.drained stored.currentLevel
      (currentTime (some stored) request - stored.lastDrip) ≤ newLevel (some stored) request := by
    rw [hset.newLevel_eq]
    exact le_add_of_nonneg_right request.incrBy_pos.le
  have hdrained := drained_mono limiter _ (x := start - currentTime (some stored) request) hlevel
  rw [drained_drained limiter _ (sub_nonneg.mpr hstart), sub_add_sub_cancel'] at hdrained
  linarith

theorem add_room_next_le (hset : SetBefore stored request) (h : allowed (some stored) request)
    (hstart : start ≤ currentTime (some stored) request) :
    request.incrBy +
      Stored.room ⟨newLevel (some stored) request, currentTime (some stored) request, expiresAt, h⟩
        start stop ≤ stored.room start stop := by
  have htime := hset.lastDrip_le_currentTime
  have hfrom := max_le hstart htime
  have hlevel := hset.newLevel_eq
  have hnonneg : 0 ≤ newLevel (some stored) request := by
    have hdrained := drained_nonneg limiter stored.currentLevel
      (x := currentTime (some stored) request - stored.lastDrip)
    have hpos := request.incrBy_pos
    linarith
  have hdrained := drained_le_add limiter stored.currentLevel
    (x := max start stored.lastDrip - stored.lastDrip)
    (sub_nonneg.mpr hfrom)
  rw [sub_add_sub_cancel'] at hdrained
  rw [room_of_le h hnonneg hstart, Stored.room, hlevel]
  linarith only [hdrained]

end Step

theorem amount_le_room (requests : List Request) (stored : Stored limiter)
    (hset : ∀ request ∈ requests, SetBefore stored request)
    (hclocks : requests.Pairwise (ClocksAgree limiter)) (hle : start ≤ stop)
    (hstop : stored.lastDrip ≤ stop) :
    amount Admission.bucketTime start stop (admissions (some stored) requests) ≤
      stored.room start stop := by
  induction requests generalizing stored with
  | nil => exact room_nonneg stored hle hstop
  | cons request rest ih =>
    rw [forall_mem_cons] at hset
    rw [pairwise_cons] at hclocks
    by_cases hallowed : allowed (some stored) request
    · have hnext := fun later hlater ↦ hset.1.next hallowed (hset.2 later hlater)
        (hclocks.1 later hlater)
      rw [admissions_of_allowed hallowed]
      by_cases hafter : stop < currentTime (some stored) request
      · rw [amount_cons_of_gt _ _ _ hafter, amount_eq_zero rest _ hnext hclocks.2 hafter]
        exact room_nonneg stored hle hstop
      have hrest := ih _ hnext hclocks.2 (not_lt.mp hafter)
      by_cases hstart : start ≤ currentTime (some stored) request
      · rw [amount_cons_of_mem _ _ _ hstart (not_lt.mp hafter)]
        exact (add_le_add_right hrest _).trans (add_room_next_le hset.1 hallowed hstart)
      · rw [amount_cons_of_lt _ _ _ (not_le.mp hstart)]
        exact hrest.trans (room_next_le hset.1 hallowed (not_le.mp hstart).le)
    · rw [admissions_of_not_allowed hallowed]
      exact ih stored hset.2 hclocks.2 hstop

theorem amount_le_of_none (requests : List Request)
    (hclocks : requests.Pairwise (ClocksAgree limiter)) (hle : start ≤ stop) :
    amount Admission.bucketTime start stop
        (admissions (none : Option (Stored limiter)) requests) ≤
      limiter.bucketSize + limiter.dripRate * (stop - start) := by
  have hdrip := mul_nonneg limiter.dripRate_pos.le (sub_nonneg.mpr hle)
  induction requests with
  | nil => exact add_nonneg limiter.bucketSize_nonneg hdrip
  | cons request rest ih =>
    rw [pairwise_cons] at hclocks
    by_cases hallowed : allowed (none : Option (Stored limiter)) request
    · have hset : ∀ later ∈ rest, SetBefore ⟨newLevel none request,
          currentTime (none : Option (Stored limiter)) request,
          request.redisTime + limiter.maxTtlSeconds, hallowed⟩ later := by
        intro later hlater
        simpa only [currentTime_none] using
          setBefore_of_clocksAgree hallowed (hclocks.1 later hlater)
      rw [admissions_of_allowed hallowed]
      by_cases hafter : stop < currentTime (none : Option (Stored limiter)) request
      · rw [amount_cons_of_gt _ _ _ hafter, amount_eq_zero rest _ hset hclocks.2 hafter]
        exact add_nonneg limiter.bucketSize_nonneg hdrip
      have hrest := amount_le_room rest _ hset hclocks.2 hle (not_lt.mp hafter)
      by_cases hstart : start ≤ currentTime (none : Option (Stored limiter)) request
      · rw [amount_cons_of_mem _ _ _ hstart (not_lt.mp hafter)]
        have hlevel := @newLevel_none limiter request
        have hnonneg : 0 ≤ newLevel (none : Option (Stored limiter)) request :=
          hlevel ▸ request.incrBy_pos.le
        have hdrip' := mul_le_mul_of_nonneg_left (sub_le_sub_left hstart stop)
          limiter.dripRate_pos.le
        rw [room_of_le hallowed hnonneg hstart] at hrest
        linarith only [hrest, hlevel, hdrip']
      · rw [amount_cons_of_lt _ _ _ (not_le.mp hstart)]
        exact le_trans hrest (room_le ⟨newLevel none request, _, _, hallowed⟩)
    · rw [admissions_of_not_allowed hallowed]
      exact ih hclocks.2

end Bound

section Forwards

variable {state : Option (Stored limiter)} {request : Request}

theorem currentTime_of_forwards (h : ∀ stored ∈ state, stored.lastDrip ≤ request.currentTime) :
    currentTime state request = request.currentTime := by
  cases state with
  | none => exact currentTime_none request
  | some stored =>
    by_cases hlive : request.redisTime < stored.expiresAt
    · rw [currentTime_of_live hlive]
      exact max_eq_left (h stored rfl)
    · exact currentTime_of_expired (not_lt.mp hlive)

theorem callTime_of_forwards (requests : List Request) (state : Option (Stored limiter))
    (hstate : ∀ stored ∈ state, ∀ request ∈ requests, stored.lastDrip ≤ request.currentTime)
    (htimes : requests.Pairwise fun earlier later ↦ earlier.currentTime ≤ later.currentTime) :
    ∀ admission ∈ admissions state requests, admission.callTime = admission.bucketTime := by
  induction requests generalizing state with
  | nil => simp [admissions]
  | cons request rest ih =>
    rw [pairwise_cons] at htimes
    have htime := currentTime_of_forwards fun stored hstored ↦
      hstate stored hstored request mem_cons_self
    by_cases hallowed : allowed state request
    · rw [admissions_of_allowed hallowed, forall_mem_cons]
      refine ⟨htime.symm, ih _ ?_ htimes.2⟩
      intro stored hstored later hlater
      rw [← Option.some_inj.mp hstored]
      exact htime ▸ htimes.1 later hlater
    · rw [admissions_of_not_allowed hallowed]
      exact ih state (fun stored hstored later hlater ↦
        hstate stored hstored later (mem_cons_of_mem _ hlater)) htimes.2

end Forwards

/-- At the times of the bucket, what is allowed between two times is at most the size of the bucket
and what drips in between; these are the times of the requests if time does not go backwards. A
request that is not allowed changes nothing. -/
theorem amount_bucketTime_le (limiter : Limiter) (requests : List Request)
    (hclocks : requests.Pairwise (ClocksAgree limiter)) {start stop : ℚ} (hle : start ≤ stop) :
    amount Admission.bucketTime start stop (limiter.admitted requests) ≤
      limiter.bucketSize + limiter.dripRate * (stop - start) ∧
    (requests.Pairwise (fun earlier later ↦ earlier.currentTime ≤ later.currentTime) →
      amount Admission.callTime start stop (limiter.admitted requests) ≤
        limiter.bucketSize + limiter.dripRate * (stop - start)) ∧
    ∀ (state : Option (Stored limiter)) (request : Request),
      (leakyBucket state request).1.waitTime ≠ 0 → (leakyBucket state request).2 = state := by
  have hbound := amount_le_of_none requests hclocks hle
  refine ⟨hbound, ?_, ?_⟩
  · intro htimes
    have hsame : ∀ admission ∈ limiter.admitted requests,
        admission.callTime = admission.bucketTime :=
      callTime_of_forwards requests none
        (fun stored hstored ↦ absurd hstored (Option.not_mem_none stored)) htimes
    have hfilter : amount Admission.callTime start stop (limiter.admitted requests) =
        amount Admission.bucketTime start stop (limiter.admitted requests) := by
      unfold amount
      rw [filter_congr fun admission hadmission ↦ by rw [hsame admission hadmission]]
    exact hfilter.trans_le hbound
  · intro state request hwait
    exact dif_neg fun hallowed ↦ hwait ((waitTime_eq_zero state request).mpr hallowed)

/-- A bucket of size two, of which one drips every second. -/
def twoDrops : Limiter := ⟨2, 1, by norm_num, by norm_num⟩

/-- Two requests at once, and one of a clock that is two seconds behind. -/
def behind : List Request :=
  [⟨0, 0, 2, by norm_num⟩, ⟨2, 2, 1, by norm_num⟩, ⟨0, 2, 1, by norm_num⟩]

/-- A request of a clock that is six seconds ahead, and one four seconds later of one that is not so
much. -/
def ahead : List Request := [⟨6, 0, 2, by norm_num⟩, ⟨6, 4, 2, by norm_num⟩]

theorem amount_bucketTime_le_behind :
    behind.Pairwise (ClocksAgree twoDrops) ∧ (0 : ℚ) ≤ 1 ∧
      amount Admission.bucketTime 0 1 (twoDrops.admitted behind) ≤ 2 + 1 * (1 - 0) := by
  have hclocks : behind.Pairwise (ClocksAgree twoDrops) := by
    simp [behind, ClocksAgree, twoDrops, Limiter.maxTtlSeconds]
  have hle : (0 : ℚ) ≤ 1 := by norm_num
  exact ⟨hclocks, hle, (amount_bucketTime_le twoDrops behind hclocks hle).1⟩

/-- More than the size of the bucket is allowed at one time of the application servers, and even at
one time of the bucket if their clocks drift apart by more than two seconds. -/
theorem amount_exceeds :
    behind.Pairwise (ClocksAgree twoDrops) ∧
      twoDrops.bucketSize + twoDrops.dripRate * (0 - 0) <
        amount Admission.callTime 0 0 (twoDrops.admitted behind) ∧
      ¬ ahead.Pairwise (ClocksAgree twoDrops) ∧
      twoDrops.bucketSize + twoDrops.dripRate * (6 - 6) <
        amount Admission.callTime 6 6 (twoDrops.admitted ahead) ∧
      twoDrops.bucketSize + twoDrops.dripRate * (6 - 6) <
        amount Admission.bucketTime 6 6 (twoDrops.admitted ahead) := by
  decide +kernel

end Sentry.RateLimits.LeakyBucket
