import Mathlib.Algebra.Order.Ring.Int
import Mathlib.Data.PNat.Basic
import Mathlib.Order.Bounds.Basic

/-!
# The schedules of monitors

`schedule.py`. The next and the previous time of a schedule are those of `croniter` and of `rrule`,
cut down to the minute. An interval recurs from a start: the last expected time for the previous
time, the reference for the next one. The next time after the last one before a reference is not
before the reference (`exists_expected`).
-/

namespace Sentry.Monitors

def minute : ℤ := 60000000

/-- `replace(second=0, microsecond=0)`. -/
def clampToMinute (t : ℤ) : ℤ := t / minute * minute

def WholeMinute (t : ℤ) : Prop := minute ∣ t

theorem clampToMinute_of_wholeMinute {t : ℤ} (h : WholeMinute t) : clampToMinute t = t :=
  Int.ediv_mul_cancel h

theorem wholeMinute_clampToMinute (t : ℤ) : WholeMinute (clampToMinute t) :=
  Dvd.intro_left _ rfl

inductive IntervalUnit
  | year
  | month
  | week
  | day
  | hour
  | minute
  deriving DecidableEq

inductive ScheduleConfig
  | crontab (crontab : String)
  | interval (interval : ℕ+) (unit : IntervalUnit)

/-- The times that `croniter` and `rrule` give in the timezone of the monitor. `after` and `before`
are those of the rule of an interval with a start; there may be no time before the reference. -/
structure Calendar where
  getNext : String → ℤ → ℤ
  getPrev : String → ℤ → ℤ
  after : ℕ+ → IntervalUnit → ℤ → ℤ → ℤ
  before : ℕ+ → IntervalUnit → ℤ → ℤ → Option ℤ

variable (calendar : Calendar)

def getNextSchedule (referenceTs : ℤ) : ScheduleConfig → ℤ
  | .crontab crontab => clampToMinute (calendar.getNext crontab referenceTs)
  | .interval interval unit =>
    clampToMinute (calendar.after interval unit referenceTs referenceTs)

/-- `get_prev_schedule`; `none` if it raises. -/
def getPrevSchedule (startTs referenceTs : ℤ) : ScheduleConfig → Option ℤ
  | .crontab crontab => some (clampToMinute (calendar.getPrev crontab referenceTs))
  | .interval interval unit =>
    (calendar.before interval unit startTs referenceTs).map clampToMinute

/-- The next and the previous time of a crontab are the nearest of its occurrences, which are at
whole minutes. -/
structure CrontabOccurs (crontab : String) (times : Set ℤ) : Prop where
  wholeMinute : ∀ t ∈ times, WholeMinute t
  next : ∀ reference, IsLeast {t ∈ times | reference < t} (calendar.getNext crontab reference)
  prev : ∀ reference, (∃ t ∈ times, t < reference) →
    IsGreatest {t ∈ times | t < reference} (calendar.getPrev crontab reference)

/-- The next and the previous time of an interval are the nearest of its occurrences, which recur
from a start. From a whole minute on they are at whole minutes, and each of them may be taken as the
start of the later ones. -/
structure IntervalOccurs (interval : ℕ+) (unit : IntervalUnit) (times : ℤ → Set ℤ) : Prop where
  start_mem : ∀ start, WholeMinute start → start ∈ times start
  wholeMinute : ∀ start, WholeMinute start → ∀ t ∈ times start, WholeMinute t
  later : ∀ start, ∀ t ∈ times start, times t ⊆ times start
  next : ∀ reference,
    IsLeast {t ∈ times reference | reference < t} (calendar.after interval unit reference reference)
  prev : ∀ start reference, WholeMinute start → start < reference →
    ∃ t, calendar.before interval unit start reference = some t ∧
      IsGreatest {t ∈ times start | t < reference} t

/-- A schedule has occurrences, of which the calendar gives the nearest. -/
def Occurs : ScheduleConfig → Prop
  | .crontab crontab => ∃ times, CrontabOccurs calendar crontab times
  | .interval interval unit => ∃ times, IntervalOccurs calendar interval unit times

variable {calendar}

theorem le_of_isLeast_of_isGreatest {times : Set ℤ} {reference prev next : ℤ}
    (hprev : IsGreatest {t ∈ times | t < reference} prev) (hnext : next ∈ times)
    (hlt : prev < next) : reference ≤ next := by
  by_contra hbefore
  exact absurd (hprev.2 ⟨hnext, not_le.mp hbefore⟩) (not_le.mpr hlt)

theorem exists_expected {schedule : ScheduleConfig} (h : Occurs calendar schedule) :
    ∃ Expected : ℤ → Prop, (∀ reference, Expected (getNextSchedule calendar reference schedule)) ∧
      ∀ expected ts, Expected expected → expected < ts →
        ∃ prev, getPrevSchedule calendar expected ts schedule = some prev ∧
          expected < getNextSchedule calendar prev schedule ∧
          ts ≤ getNextSchedule calendar prev schedule := by
  cases schedule with
  | crontab crontab =>
    obtain ⟨times, htimes⟩ := h
    have hclamp : ∀ t ∈ times, clampToMinute t = t := fun t ht ↦
      clampToMinute_of_wholeMinute (htimes.wholeMinute t ht)
    have hnext : ∀ reference,
        getNextSchedule calendar reference (.crontab crontab) =
          calendar.getNext crontab reference := fun reference ↦
      hclamp _ (htimes.next reference).1.1
    refine ⟨(· ∈ times), fun reference ↦ ?_, fun expected ts hexpected hlt ↦ ?_⟩
    · rw [hnext]
      exact (htimes.next reference).1.1
    · have hprev := htimes.prev ts ⟨expected, hexpected, hlt⟩
      have hlater := (htimes.next (calendar.getPrev crontab ts)).1
      refine ⟨calendar.getPrev crontab ts, congrArg some (hclamp _ hprev.1.1), ?_, ?_⟩
      · rw [hnext]
        exact lt_of_le_of_lt (hprev.2 ⟨hexpected, hlt⟩) hlater.2
      · rw [hnext]
        exact le_of_isLeast_of_isGreatest hprev hlater.1 hlater.2
  | interval interval unit =>
    obtain ⟨times, htimes⟩ := h
    refine ⟨WholeMinute, fun _ ↦ wholeMinute_clampToMinute _, fun expected ts hexpected hlt ↦ ?_⟩
    obtain ⟨prev, hbefore, hprev⟩ := htimes.prev expected ts hexpected hlt
    have hwhole := htimes.wholeMinute expected hexpected prev hprev.1.1
    have hlater := (htimes.next prev).1
    have hnext : getNextSchedule calendar prev (.interval interval unit) =
        calendar.after interval unit prev prev :=
      clampToMinute_of_wholeMinute (htimes.wholeMinute prev hwhole _ hlater.1)
    refine ⟨prev, ?_, ?_, ?_⟩
    · rw [getPrevSchedule, hbefore]
      exact congrArg some (clampToMinute_of_wholeMinute hwhole)
    · rw [hnext]
      exact lt_of_le_of_lt (hprev.2 ⟨htimes.start_mem expected hexpected, hlt⟩) hlater.2
    · rw [hnext]
      exact le_of_isLeast_of_isGreatest hprev (htimes.later expected prev hprev.1.1 hlater.1)
        hlater.2

end Sentry.Monitors
