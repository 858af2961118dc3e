import Sentry.Library.Machine
import Mathlib.Data.Rat.Floor

/-!
# The fixed-window rate limiter

`RedisRateLimiter.is_limited_with_value` of `ratelimits/redis.py`. A call reads the clock for its
expiration and its reset time, again for the bucket of its key, and Redis reads it a third time. The
values are right, and no more calls than the limit are let through, exactly if each call comes
before the expiry that the last call of its bucket has set (`rateLimited_iff`). Times are rational,
and calls for which Redis fails are left out.
-/

namespace Sentry.RateLimits

open Library List

/-- `int` of a float. -/
def int (x : ℚ) : ℤ := if 0 ≤ x then ⌊x⌋ else ⌈x⌉

/-- `_time_bucket` -/
def timeBucket (requestTime : ℚ) (window : ℕ) : ℤ := int (requestTime / window)

/-- `_bucket_start_time` -/
def bucketStartTime (bucketNumber : ℤ) (window : ℕ) : ℤ := bucketNumber * window

/-- The parts of a key; its text `rl:<key_hex>:[<project_id>:]<bucket>` separates them by colons. -/
structure RedisKey where
  keyHex : String
  projectId : Option ℤ
  bucket : ℤ
  deriving DecidableEq

/-- A counter and the time of its expiry. -/
structure Counter where
  value : ℕ
  expiry : ℚ

abbrev Redis := RedisKey → Option Counter

/-- `INCR` and `EXPIRE` in one pipeline. -/
def incrAndExpire (redis : Redis) (redisKey : RedisKey) (expiration : ℤ) (now : ℚ) : ℕ × Redis :=
  let value := (((redis redisKey).filter fun counter ↦ now < counter.expiry).map
    Counter.value).getD 0 + 1
  (value, Function.update redis redisKey (some ⟨value, now + expiration⟩))

/-- The readings of the clock in a call, the last one by Redis. -/
structure Clock where
  requestTime : ℚ
  keyTime : ℚ
  redisTime : ℚ
  le_keyTime : requestTime ≤ keyTime
  le_redisTime : keyTime ≤ redisTime

structure RateLimit where
  isLimited : Bool
  value : ℕ
  resetTime : ℤ

/-- `self.window` -/
def defaultWindow : ℕ := 60

def windowOr : Option ℕ → ℕ
  | none | some 0 => defaultWindow
  | some window => window

variable (md5 : String → String)

/-- `_construct_redis_key` -/
def constructRedisKey (key : String) (project : Option ℤ) (window : Option ℕ)
    (requestTime : Option ℚ) (now : ℚ) : RedisKey where
  keyHex := md5 key
  projectId := project
  bucket := timeBucket (requestTime.getD now) (windowOr window)

/-- `window - int(request_time % window)` -/
def expiration (window : ℕ) (requestTime : ℚ) : ℤ :=
  window - int (requestTime - window * ⌊requestTime / window⌋)

variable (key : String) (limit : ℕ) (project : Option ℤ) (window : Option ℕ)

/-- `is_limited_with_value` -/
def isLimitedWithValue (redis : Redis) (clock : Clock) : RateLimit × Redis :=
  let window := windowOr window
  let redisKey := constructRedisKey md5 key project (some window) none clock.keyTime
  let resetTime := bucketStartTime (timeBucket clock.requestTime window + 1) window
  let (result, redis) :=
    incrAndExpire redis redisKey (expiration window clock.requestTime) clock.redisTime
  (⟨limit < result, result, resetTime⟩, redis)

/-- The store, and the calls so far with their results. -/
structure Calls where
  redis : Redis
  answered : List (Clock × RateLimit)

/-- Calls with one key, limit and window. -/
def fixedWindow : Machine Calls Clock where
  init := ⟨fun _ ↦ none, []⟩
  step s clock :=
    let (result, redis) := isLimitedWithValue md5 key limit project window s.redis clock
    ⟨redis, s.answered ++ [(clock, result)]⟩

/-- The bucket in which a call is counted. -/
def Clock.bucket (clock : Clock) : ℤ := timeBucket clock.keyTime (windowOr window)

def Calls.inBucket (s : Calls) (bucket : ℤ) : List (Clock × RateLimit) :=
  s.answered.filter fun call ↦ call.1.bucket window = bucket

/-- In each bucket the values count the calls, and no more calls than the limit are let through. -/
structure RateLimited (s : Calls) : Prop where
  counts (bucket : ℤ) : (s.inBucket window bucket).map (·.2.value) =
    List.range' 1 (s.inBucket window bucket).length
  bounded (bucket : ℤ) : ((s.inBucket window bucket).filter fun call ↦ !call.2.isLimited).length ≤
    limit

def Clock.expiry (clock : Clock) : ℚ :=
  clock.redisTime + expiration (windowOr window) clock.requestTime

/-- A call comes before the expiry that the last call of its bucket has set. -/
def InTime (s : Calls) (clock : Clock) : Prop :=
  ∀ last ∈ (s.inBucket window (clock.bucket window)).getLast?,
    clock.redisTime < last.1.expiry window

/-- The counters are those of the calls, which are right so far. -/
structure Counted (s : Calls) : Prop extends RateLimited limit window s where
  counter (bucket : ℤ) : s.redis ⟨md5 key, project, bucket⟩ =
    (s.inBucket window bucket).getLast?.map fun last ↦
      ⟨(s.inBucket window bucket).length, last.1.expiry window⟩
  free (bucket : ℤ) : ((s.inBucket window bucket).filter fun call ↦ !call.2.isLimited).length =
    min (s.inBucket window bucket).length limit

variable {md5 key limit project window} {s : Calls} {clock : Clock}

theorem windowOr_windowOr : windowOr (some (windowOr window)) = windowOr window := by
  rcases window with _ | _ | window <;> rfl

variable (md5 key limit project window s clock) in
/-- The counter that a call increments, and its result. -/
theorem exists_step : ∃ value resetTime,
    value = (((s.redis ⟨md5 key, project, clock.bucket window⟩).filter fun counter ↦
      clock.redisTime < counter.expiry).map Counter.value).getD 0 + 1 ∧
    (fixedWindow md5 key limit project window).step s clock =
      ⟨Function.update s.redis ⟨md5 key, project, clock.bucket window⟩
          (some ⟨value, clock.expiry window⟩),
        s.answered ++ [(clock, ⟨limit < value, value, resetTime⟩)]⟩ := by
  refine ⟨_, bucketStartTime (timeBucket clock.requestTime (windowOr window) + 1)
    (windowOr window), rfl, ?_⟩
  simp only [fixedWindow, isLimitedWithValue, constructRedisKey, windowOr_windowOr]
  rfl

theorem inBucket_concat (redis : Redis) (result : RateLimit) (bucket : ℤ) :
    Calls.inBucket window ⟨redis, s.answered ++ [(clock, result)]⟩ bucket =
      if clock.bucket window = bucket then s.inBucket window bucket ++ [(clock, result)]
      else s.inBucket window bucket := by
  unfold Calls.inBucket
  split_ifs with h
  · simp [h]
  · simp [h]

/-- A call in time is counted, and one that is not starts anew. -/
theorem Counted.value_eq (h : Counted md5 key limit project window s) :
    (((s.redis ⟨md5 key, project, clock.bucket window⟩).filter fun counter ↦
      clock.redisTime < counter.expiry).map Counter.value).getD 0 + 1 =
        (s.inBucket window (clock.bucket window)).length + 1 ↔ InTime window s clock := by
  rw [h.counter, InTime, Nat.add_right_cancel_iff]
  cases hlast : (s.inBucket window (clock.bucket window)).getLast? with
  | none =>
    rw [getLast?_eq_none_iff.mp hlast]
    exact iff_of_true rfl (by simp)
  | some last =>
    have hne : (s.inBucket window (clock.bucket window)).length ≠ 0 := fun hnil ↦ by
      rw [length_eq_zero_iff.mp hnil] at hlast
      cases hlast
    rw [Option.map_some, Option.filter_some]
    by_cases htime : clock.redisTime < last.1.expiry window
    · simp [htime]
    · simpa [htime] using hne.symm

theorem Counted.step (h : Counted md5 key limit project window s) (htime : InTime window s clock) :
    Counted md5 key limit project window
      ((fixedWindow md5 key limit project window).step s clock) := by
  obtain ⟨value, resetTime, hvalue, hstep⟩ := exists_step md5 key limit project window s clock
  rw [h.value_eq.mpr htime] at hvalue
  rw [hstep]
  have hfree (redis : Redis) (bucket : ℤ) : ((Calls.inBucket window ⟨redis, s.answered ++
      [(clock, ⟨limit < value, value, resetTime⟩)]⟩ bucket).filter
        fun call ↦ !call.2.isLimited).length = min (Calls.inBucket window ⟨redis, s.answered ++
      [(clock, ⟨limit < value, value, resetTime⟩)]⟩ bucket).length limit := by
    rw [inBucket_concat]
    split_ifs with hbucket
    · subst hbucket
      rw [filter_append, length_append, h.free, length_append, length_singleton, ← hvalue]
      by_cases hlimit : limit < value
      · simp [hlimit]
        omega
      · simp [hlimit]
        omega
    · exact h.free bucket
  refine ⟨⟨fun bucket ↦ ?_, fun bucket ↦ (hfree _ bucket).trans_le (min_le_right _ _)⟩,
    fun bucket ↦ ?_, hfree _⟩
  · rw [inBucket_concat]
    split_ifs with hbucket
    · subst hbucket
      rw [map_append, h.counts, length_append, length_singleton,
        range'_concat, hvalue, Nat.one_mul, Nat.add_comm 1]
      rfl
    · exact h.counts bucket
  · rw [inBucket_concat]
    show Function.update s.redis _ _ _ = _
    split_ifs with hbucket
    · subst hbucket
      rw [Function.update_self, getLast?_concat, hvalue, length_append]
      rfl
    · rw [Function.update_of_ne (fun heq ↦ hbucket (RedisKey.mk.inj heq).2.2.symm)]
      exact h.counter bucket

variable (md5 key limit project window) in
/-- After every call the values are right and the limit is kept, exactly if every call comes before
the expiry that the last call of its bucket has set. -/
theorem rateLimited_iff (clocks : List Clock) :
    (∀ first, first <+: clocks →
      RateLimited limit window ((fixedWindow md5 key limit project window).run first)) ↔
      (fixedWindow md5 key limit project window).EveryStep (InTime window)
        (fixedWindow md5 key limit project window).init clocks := by
  refine Machine.forall_prefix_property_iff_everyStep _
    (I := Counted md5 key limit project window) (fun s h ↦ h.toRateLimited)
    (fun s clock h ↦ h.step) ?_ ?_ clocks
  · intro s clock h hlimited
    obtain ⟨value, resetTime, hvalue, hstep⟩ := exists_step md5 key limit project window s clock
    have hcounts := hlimited.counts (clock.bucket window)
    rw [hstep, inBucket_concat, if_pos rfl, map_append, length_append, h.counts,
      length_singleton, range'_concat] at hcounts
    have hlast : value = 1 + 1 * (s.inBucket window (clock.bucket window)).length :=
      singleton_inj.mp (append_cancel_left hcounts)
    rw [← h.value_eq, ← hvalue, hlast]
    omega
  · exact ⟨⟨fun _ ↦ rfl, fun _ ↦ Nat.zero_le _⟩, fun _ ↦ rfl, fun _ ↦ (Nat.zero_min _).symm⟩

def acrossWindows : List Clock :=
  [⟨599 / 10, 60, 60, by norm_num, le_rfl⟩, ⟨62, 62, 62, le_rfl, le_rfl⟩]

theorem acrossWindows_not_rateLimited :
    ¬∀ (md5 : String → String) (key : String) (limit : ℕ) (project : Option ℤ) (window : Option ℕ)
      (clocks first : List Clock), first <+: clocks →
        RateLimited limit window ((fixedWindow md5 key limit project window).run first) := by
  intro h
  have hbounded := (h id "" 1 none none acrossWindows acrossWindows (prefix_refl _)).bounded 1
  revert hbounded
  decide +kernel

end Sentry.RateLimits
