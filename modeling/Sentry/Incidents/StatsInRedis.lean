import Sentry.Incidents.ProcessorSteps
import Mathlib.Algebra.Order.Archimedean.Basic

/-!
# The statistics in Redis

A processor writes only the counts that differ from those it loaded. A count that comes back to what
was loaded, after another one was written, stays wrong in Redis (`stats_eq_iff_everyStep`). The time
of the last update is written in whole seconds, so an update that was processed is processed again
when its timestamp has a fraction (`redelivery_iff`).
-/

namespace Sentry.Incidents

open AlertTables Library SubscriptionProcessor List

/-- The counts in Redis are those of the processor: a new processor loads the same. -/
def SameCounts (rule : AlertRule) (p : SubscriptionProcessor) : Prop :=
  ∀ trigger ∈ rule.triggers,
    (init p.state).triggerAlertCounts trigger.id = p.triggerAlertCounts trigger.id ∧
      (init p.state).triggerResolveCounts trigger.id = p.triggerResolveCounts trigger.id

def AlertCountReturns (rule : AlertRule) (p : SubscriptionProcessor)
    (update : QuerySubscriptionUpdate) (value : ℚ) (trigger : AlertRuleTrigger) : Prop :=
  let view := p.view update trigger
  if view.AlertDue rule trigger value ∧ ¬ view.AlertFires rule trigger value then
    p.triggerAlertCounts trigger.id + 1 = p.origTriggerAlertCounts trigger.id
  else
    p.triggerAlertCounts trigger.id ≠ 0 ∧ p.origTriggerAlertCounts trigger.id = 0

def ResolveCountReturns (rule : AlertRule) (p : SubscriptionProcessor)
    (update : QuerySubscriptionUpdate) (value : ℚ) (trigger : AlertRuleTrigger) : Prop :=
  let view := p.view update trigger
  if view.ResolveDue rule trigger value ∧ ¬ view.ResolveFires rule trigger value then
    p.triggerResolveCounts trigger.id + 1 = p.origTriggerResolveCounts trigger.id
  else
    p.triggerResolveCounts trigger.id ≠ 0 ∧ p.origTriggerResolveCounts trigger.id = 0

/-- No count moves back to the one that was loaded. -/
def NoCountReturns (rule : AlertRule) (p : SubscriptionProcessor) : ProcessorEvent → Prop
  | .construct => True
  | .update update => ∀ trigger ∈ rule.triggers,
    (∀ value, Evaluates rule p update value →
      ¬ AlertCountReturns rule p update value trigger ∧
        ¬ ResolveCountReturns rule p update value trigger) ∧
    (ResetsCounts rule p update →
      (p.origTriggerAlertCounts trigger.id = 0 → p.triggerAlertCounts trigger.id = 0) ∧
        (p.origTriggerResolveCounts trigger.id = 0 → p.triggerResolveCounts trigger.id = 0))

section Counts

variable {rule : AlertRule} {p : SubscriptionProcessor} {update : QuerySubscriptionUpdate}
  {value : ℚ}

theorem written_eq_iff {loaded before after : ℕ} :
    (if after ≠ loaded then after else before) = after ↔ ¬ (before ≠ after ∧ after = loaded) := by
  split_ifs with hchanged
  · exact iff_of_true rfl fun h ↦ hchanged h.2
  · rw [not_not] at hchanged
    rw [and_iff_left hchanged, not_not]

theorem returns_iff {loaded before : ℕ} (counted : Prop) [Decidable counted] :
    (before ≠ (if counted then before + 1 else 0) ∧ (if counted then before + 1 else 0) = loaded) ↔
      if counted then before + 1 = loaded else before ≠ 0 ∧ loaded = 0 := by
  split_ifs
  · exact and_iff_right (Nat.succ_ne_self before).symm
  · rw [eq_comm (a := 0)]

theorem sameCounts_of_evaluates (h : p.Coherent) (hsame : SameCounts rule p)
    (hvalue : Evaluates rule p update value) :
    SameCounts rule (p.processUpdate rule update) ↔ ∀ trigger ∈ rule.triggers,
      ¬ AlertCountReturns rule p update value trigger ∧
        ¬ ResolveCountReturns rule p update value trigger := by
  have hchecks := checksAll_of_coherent h rule update value
  rw [processUpdate_of_evaluates hvalue]
  refine forall₂_congr fun trigger htrigger ↦ ?_
  obtain ⟨halert, hresolve⟩ := hsame trigger htrigger
  have hnextAlert := hchecks.alertCount_eq trigger (mem_sortedTriggers.mpr htrigger)
  have hnextResolve := hchecks.resolveCount_eq trigger (mem_sortedTriggers.mpr htrigger)
  have hstats := hchecks.keepsStats
  rw [view_start h, TriggerView.nextAlertCount] at hnextAlert
  rw [view_start h, TriggerView.nextResolveCount] at hnextResolve
  have hloadedAlert : p.state.stats.triggerAlertCounts trigger.id =
      p.triggerAlertCounts trigger.id := halert
  have hloadedResolve : p.state.stats.triggerResolveCounts trigger.id =
      p.triggerResolveCounts trigger.id := hresolve
  generalize rule.sortedTriggers.foldl (checkTrigger rule update value) (p.start update value) = q
    at hnextAlert hnextResolve hstats
  refine and_congr ?_ ?_
  · show (if _ ≠ _ then _ else _) = q.triggerAlertCounts trigger.id ↔ _
    rw [hstats.origTriggerAlertCounts, hstats.stats, hnextAlert, written_eq_iff]
    refine not_congr ?_
    show p.state.stats.triggerAlertCounts trigger.id ≠ _ ∧ _ ↔ _
    rw [hloadedAlert]
    exact returns_iff _
  · show (if _ ≠ _ then _ else _) = q.triggerResolveCounts trigger.id ↔ _
    rw [hstats.origTriggerResolveCounts, hstats.stats, hnextResolve, written_eq_iff]
    refine not_congr ?_
    show p.state.stats.triggerResolveCounts trigger.id ≠ _ ∧ _ ↔ _
    rw [hloadedResolve]
    exact returns_iff _

theorem sameCounts_resetTriggerCounts (hsame : SameCounts rule p) (timestamp : ℚ) :
    SameCounts rule { p with lastUpdate := timestamp }.resetTriggerCounts ↔
      ∀ trigger ∈ rule.triggers,
        (p.origTriggerAlertCounts trigger.id = 0 → p.triggerAlertCounts trigger.id = 0) ∧
          (p.origTriggerResolveCounts trigger.id = 0 → p.triggerResolveCounts trigger.id = 0) := by
  refine forall₂_congr fun trigger htrigger ↦ ?_
  obtain ⟨halert, hresolve⟩ := hsame trigger htrigger
  have hloadedAlert : p.state.stats.triggerAlertCounts trigger.id =
      p.triggerAlertCounts trigger.id := halert
  have hloadedResolve : p.state.stats.triggerResolveCounts trigger.id =
      p.triggerResolveCounts trigger.id := hresolve
  have hreset {loaded before : ℕ} :
      (if 0 ≠ loaded then 0 else before) = 0 ↔ (loaded = 0 → before = 0) := by
    rw [written_eq_iff, eq_comm (a := 0)]
    tauto
  rw [← hloadedAlert, ← hloadedResolve]
  exact and_congr hreset hreset

theorem sameCounts_step_iff (h : p.Coherent) (hsame : SameCounts rule p) (event : ProcessorEvent) :
    SameCounts rule ((processing rule).step p event) ↔ NoCountReturns rule p event := by
  cases event with
  | construct => exact iff_of_true (fun _ _ ↦ ⟨rfl, rfl⟩) trivial
  | update update =>
    show SameCounts rule (p.processUpdate rule update) ↔ _
    by_cases hevaluates : ∃ value, Evaluates rule p update value
    · obtain ⟨value, hvalue⟩ := hevaluates
      rw [sameCounts_of_evaluates h hsame hvalue]
      refine forall₂_congr fun trigger _ ↦ ⟨fun hnone ↦ ⟨fun other hother ↦ ?_, fun hreset ↦ ?_⟩,
        fun hnone ↦ hnone.1 value hvalue⟩
      · rwa [← Option.some.inj (hvalue.value_eq.symm.trans hother.value_eq)]
      · have hnoValue := hreset.value_eq
        rw [hvalue.value_eq] at hnoValue
        nomatch hnoValue
    · rw [not_exists] at hevaluates
      have hprocessed := processed_processUpdate rule p update
      generalize p.processUpdate rule update = q at hprocessed
      have hnoReset (hno : ¬ ResetsCounts rule p update) :
          NoCountReturns rule p (.update update) := fun _ _ ↦
        ⟨fun value hvalue ↦ absurd hvalue (hevaluates value), fun hreset ↦ absurd hreset hno⟩
      cases hprocessed with
      | skipped hskip => exact iff_of_true hsame (hnoReset fun hreset ↦ hskip hreset.toAccepts)
      | withoutValue _ _ hother =>
        exact iff_of_true hsame (hnoReset fun hreset ↦ hother hreset.metrics)
      | reset hreset =>
        rw [sameCounts_resetTriggerCounts hsame]
        exact forall₂_congr fun trigger _ ↦
          ⟨fun hzero ↦ ⟨fun value hvalue ↦ absurd hvalue (hevaluates value), fun _ ↦ hzero⟩,
            fun hzero ↦ hzero.2 hreset⟩
      | evaluated value hvalue => exact absurd hvalue (hevaluates value)

end Counts

/-- Throughout a run, the counts in Redis are those of the processor, so that a new processor goes
on with the same, if and only if no count moves back to the one that the processor loaded. -/
theorem sameCounts_iff_everyStep (rule : AlertRule) (events : List ProcessorEvent) :
    (∀ first, first <+: events → SameCounts rule ((processing rule).run first)) ↔
      (processing rule).EveryStep (NoCountReturns rule) (processing rule).init events := by
  have hstart : (processing rule).init.Coherent := processing_coherent rule []
  refine (processing rule).forall_prefix_property_iff_everyStep
    (I := fun p ↦ p.Coherent ∧ SameCounts rule p) (G := SameCounts rule) (fun _ h ↦ h.2) ?_ ?_
    ⟨hstart, fun _ _ ↦ ⟨rfl, rfl⟩⟩ events
  · intro p event h hevent
    refine ⟨?_, (sameCounts_step_iff h.1 h.2 event).mpr hevent⟩
    exact coherent_step h.1 event
  · intro p event h hnext
    exact (sameCounts_step_iff h.1 h.2 event).mp hnext

/-- A value under the threshold after one over it resets the count, but not that in Redis. -/
theorem not_sameCounts : ¬ ∀ (rule : AlertRule) (events : List ProcessorEvent),
    SameCounts rule ((processing rule).run events) := by
  intro hall
  have hsame := (hall twoInARow [.update (valueAt 60 200), .update (valueAt 120 50)]
    ⟨1, .critical, 100⟩ (by decide)).1
  have hcount : (init ((processing twoInARow).run
      [.update (valueAt 60 200), .update (valueAt 120 50)]).state).triggerAlertCounts 1 = 1 := by
    decide +kernel
  have hprocessor : ((processing twoInARow).run
      [.update (valueAt 60 200), .update (valueAt 120 50)]).triggerAlertCounts 1 = 0 := by
    decide +kernel
  rw [hcount, hprocessor] at hsame
  nomatch hsame

/-- The same message. What is read outside may be another. -/
structure SameMessage (first second : QuerySubscriptionUpdate) : Prop where
  timestamp_eq : second.timestamp = first.timestamp
  value_eq : second.value = first.value
  totalSessionCount_eq : second.totalSessionCount = first.totalSessionCount
  crashCount_eq : second.crashCount = first.crashCount

def Redelivers (update later : QuerySubscriptionUpdate) : Prop :=
  SameMessage update later ∨ later.timestamp < update.timestamp

/-- The incidents, their triggers, the notifications and the counts are as before. -/
structure Unchanged (rule : AlertRule) (s t : SubscriptionState) : Prop where
  tables_eq : t.tables = s.tables
  turned_eq : t.turned = s.turned
  alertCount_eq : ∀ trigger ∈ rule.triggers,
    t.stats.triggerAlertCounts trigger.id = s.stats.triggerAlertCounts trigger.id
  resolveCount_eq : ∀ trigger ∈ rule.triggers,
    t.stats.triggerResolveCounts trigger.id = s.stats.triggerResolveCounts trigger.id

theorem Unchanged.refl (rule : AlertRule) (s : SubscriptionState) : Unchanged rule s s :=
  ⟨rfl, rfl, fun _ _ ↦ rfl, fun _ _ ↦ rfl⟩

/-- No time is negative. -/
structure TimesNonneg (p : SubscriptionProcessor) : Prop where
  lastUpdate : 0 ≤ p.lastUpdate
  stats : 0 ≤ p.state.stats.lastUpdate

section Redelivery

variable {rule : AlertRule} {p : SubscriptionProcessor} {update : QuerySubscriptionUpdate}
  {value : ℚ}

theorem tdiv_eq_floor {timestamp : ℚ} (h : 0 ≤ timestamp) :
    timestamp.num.tdiv timestamp.den = ⌊timestamp⌋ := by
  rw [Int.tdiv_eq_ediv_of_nonneg (Rat.num_nonneg.mpr h), Rat.floor_def']

theorem timesNonneg_updateAlertRuleStats (h : 0 ≤ p.lastUpdate) :
    TimesNonneg p.updateAlertRuleStats := by
  refine ⟨h, ?_⟩
  show 0 ≤ p.lastUpdate.num.tdiv p.lastUpdate.den
  rw [tdiv_eq_floor h]
  exact Int.floor_nonneg.mpr h

theorem timesNonneg_step (hcoherent : p.Coherent) (h : TimesNonneg p) (event : ProcessorEvent) :
    TimesNonneg ((processing rule).step p event) := by
  cases event with
  | construct => exact ⟨Int.cast_nonneg h.stats, h.stats⟩
  | update update =>
    show TimesNonneg (p.processUpdate rule update)
    have hprocessed := processed_processUpdate rule p update
    generalize p.processUpdate rule update = q at hprocessed
    cases hprocessed with
    | skipped _ => exact h
    | withoutValue haccepts _ _ => exact ⟨h.lastUpdate.trans haccepts.newer.le, h.stats⟩
    | reset hreset => exact timesNonneg_updateAlertRuleStats (h.lastUpdate.trans hreset.newer.le)
    | evaluated value hvalue =>
      apply timesNonneg_updateAlertRuleStats
      rw [(checksAll_of_coherent hcoherent rule update value).keepsStats.lastUpdate]
      exact h.lastUpdate.trans hvalue.newer.le

theorem processing_timesNonneg (rule : AlertRule) (events : List ProcessorEvent) :
    TimesNonneg ((processing rule).run events) := by
  have hinit : (processing rule).init.Coherent ∧ TimesNonneg (processing rule).init :=
    ⟨processing_coherent rule [], le_rfl, le_rfl⟩
  exact ((processing rule).run_invariant (I := fun p ↦ p.Coherent ∧ TimesNonneg p) hinit
    (fun _ event h ↦ ⟨coherent_step h.1 event, timesNonneg_step h.1 h.2 event⟩) events).2

theorem lastUpdate_processUpdate (h : p.Coherent) (htimes : TimesNonneg p)
    (hvalue : Evaluates rule p update value) :
    (p.processUpdate rule update).state.stats.lastUpdate = ⌊update.timestamp⌋ := by
  have hstats := (checksAll_of_coherent h rule update value).keepsStats
  rw [processUpdate_of_evaluates hvalue]
  generalize rule.sortedTriggers.foldl (checkTrigger rule update value) (p.start update value) = q
    at hstats
  show q.lastUpdate.num.tdiv q.lastUpdate.den = _
  rw [hstats.lastUpdate]
  exact tdiv_eq_floor (htimes.lastUpdate.trans hvalue.newer.le)

def wholeValueAt (timestamp : ℚ) (value : ℤ) : QuerySubscriptionUpdate where
  timestamp := timestamp
  value := some value
  totalSessionCount := 1
  crashCount := 1 - value / 100
  comparisonAggregate := some 100
  projectExists := true
  hasIncidents := true
  hasPerformanceView := true
  laterElsewhere := fun _ ↦ false
  now := fun _ ↦ timestamp
  dateAdded := fun _ ↦ timestamp

theorem roundHalfEven_intCast (n : ℤ) : roundHalfEven n = n := by
  rw [roundHalfEven]
  simp

theorem getAggregationValue_wholeValueAt (rule : AlertRule) (timestamp : ℚ) (value : ℤ) :
    getAggregationValue rule (wholeValueAt timestamp value) = some (value : ℚ) := by
  rw [getAggregationValue]
  split_ifs with hmetrics hdelta
  · have hthousand : (1 - (1 - (value : ℚ) / 100) / 1) * 100 * 1000 = ((value * 1000 : ℤ) : ℚ) := by
      push_cast
      ring
    rw [getCrashRateAlertMetricsAggregationValue, wholeValueAt]
    rw [if_neg one_ne_zero, hthousand, roundHalfEven_intCast]
    push_cast
    rw [mul_div_assoc, div_self (by norm_num), mul_one]
  · show some ((value : ℚ) / 100 * 100) = _
    rw [div_mul_cancel₀ _ (by norm_num)]
  · rfl

theorem evaluates_wholeValueAt {timestamp : ℚ} (hnewer : p.lastUpdate < timestamp) (value : ℤ) :
    Evaluates rule p (wholeValueAt timestamp value) value := by
  refine ⟨⟨?_, hnewer⟩, getAggregationValue_wholeValueAt rule timestamp value⟩
  simp [ignoresUpdate, wholeValueAt]

theorem exists_alerts (rule : AlertRule) (trigger : AlertRuleTrigger) :
    ∃ value : ℤ, rule.Alerts trigger value := by
  cases htype : rule.thresholdType with
  | above =>
    obtain ⟨value, hvalue⟩ := exists_int_gt trigger.alertThreshold
    exact ⟨value, by simpa [AlertRule.Alerts, htype, AlertRuleThresholdType.alertOperator]⟩
  | below =>
    obtain ⟨value, hvalue⟩ := exists_int_lt trigger.alertThreshold
    exact ⟨value, by simpa [AlertRule.Alerts, htype, AlertRuleThresholdType.alertOperator]⟩

theorem exists_resolves (rule : AlertRule) (trigger : AlertRuleTrigger) :
    ∃ value : ℤ, rule.Resolves trigger value := by
  cases htype : rule.thresholdType with
  | above =>
    obtain ⟨value, hvalue⟩ := exists_int_lt (rule.calculateResolveThreshold trigger)
    exact ⟨value, by simpa [AlertRule.Resolves, htype, AlertRuleThresholdType.resolveOperator]⟩
  | below =>
    obtain ⟨value, hvalue⟩ := exists_int_gt (rule.calculateResolveThreshold trigger)
    exact ⟨value, by simpa [AlertRule.Resolves, htype, AlertRuleThresholdType.resolveOperator]⟩

/-- Assumes: a new processor evaluates an update. If nothing changes, no status is written and the
counts of a trigger stay. -/
theorem settled_of_unchanged {s : SubscriptionState} (h : (init s).Coherent)
    (hvalue : Evaluates rule (init s) update value)
    (hunchanged : Unchanged rule s ((init s).processUpdate rule update).state)
    {trigger : AlertRuleTrigger} (htrigger : trigger ∈ rule.triggers) :
    let view := (init s).view update trigger
    view.statuses rule trigger value = [] ∧
      view.nextAlertCount rule trigger value = view.alertCount ∧
      view.nextResolveCount rule trigger value = view.resolveCount := by
  have hchecks := checksAll_of_coherent h rule update value
  have hstats := hchecks.keepsStats
  obtain ⟨hturned, halert, hresolve⟩ :
      ((init s).processUpdate rule update).state.turned = s.turned ∧ _ ∧ _ :=
    ⟨hunchanged.turned_eq, hunchanged.alertCount_eq trigger htrigger,
      hunchanged.resolveCount_eq trigger htrigger⟩
  have hnextAlert := hchecks.alertCount_eq trigger (mem_sortedTriggers.mpr htrigger)
  have hnextResolve := hchecks.resolveCount_eq trigger (mem_sortedTriggers.mpr htrigger)
  have hwritten := hchecks.written_eq
  simp only [view_start h] at hnextAlert hnextResolve hwritten
  rw [processUpdate_of_evaluates hvalue] at hturned halert hresolve
  generalize rule.sortedTriggers.foldl (checkTrigger rule update value)
    ((init s).start update value) = q
    at hturned halert hresolve hnextAlert hnextResolve hwritten hstats
  obtain ⟨hsavedAlert, hsavedResolve⟩ := updateAlertRuleStats_stats (p := q)
    (by rw [hstats.stats, hstats.origTriggerAlertCounts]; rfl)
    (by rw [hstats.stats, hstats.origTriggerResolveCounts]; rfl)
  refine ⟨?_, ?_, ?_⟩
  · have hsame : q.state.written = ((init s).start update value).state.written := by
      exact congrArg (List.map _) hturned
    rw [hsame, self_eq_append_right, flatMap_eq_nil_iff] at hwritten
    exact map_eq_nil_iff.mp (hwritten trigger (mem_sortedTriggers.mpr htrigger))
  · rw [← hnextAlert, ← hsavedAlert]
    exact halert
  · rw [← hnextResolve, ← hsavedResolve]
    exact hresolve

theorem exists_changed {s : SubscriptionState} (h : (init s).Coherent) {timestamp : ℚ}
    (hnewer : (init s).lastUpdate < timestamp) {trigger : AlertRuleTrigger}
    (htrigger : trigger ∈ rule.triggers) : ∃ value : ℤ,
      ¬ Unchanged rule s ((init s).processUpdate rule (wholeValueAt timestamp value)).state := by
  by_cases hactive : (init s).isActive trigger = true
  · obtain ⟨value, hresolves⟩ := exists_resolves rule trigger
    refine ⟨value, fun hunchanged ↦ ?_⟩
    obtain ⟨hnone, -, hcount⟩ :=
      settled_of_unchanged h (evaluates_wholeValueAt hnewer value) hunchanged htrigger
    rw [TriggerView.nextResolveCount, if_pos] at hcount
    · exact Nat.succ_ne_self _ hcount
    · refine ⟨⟨hresolves, Or.inl hactive⟩, fun hfires ↦ ?_⟩
      rw [← TriggerView.resolved_mem_statuses, hnone] at hfires
      exact not_mem_nil hfires
  · obtain ⟨value, halerts⟩ := exists_alerts rule trigger
    refine ⟨value, fun hunchanged ↦ ?_⟩
    obtain ⟨hnone, hcount, -⟩ :=
      settled_of_unchanged h (evaluates_wholeValueAt hnewer value) hunchanged htrigger
    rw [TriggerView.nextAlertCount, if_pos] at hcount
    · exact Nat.succ_ne_self _ hcount
    · refine ⟨⟨halerts, Bool.eq_false_of_not_eq_true hactive⟩, fun hfires ↦ ?_⟩
      rw [← TriggerView.active_mem_statuses, hnone] at hfires
      exact not_mem_nil hfires

theorem unchanged_of_triggers_eq_nil (hnil : rule.triggers = [])
    (update : QuerySubscriptionUpdate) :
    Unchanged rule p.state (p.processUpdate rule update).state := by
  have hsorted : rule.sortedTriggers = [] := by
    rw [AlertRule.sortedTriggers, hnil]
    rfl
  have hprocessed := processed_processUpdate rule p update
  generalize p.processUpdate rule update = q at hprocessed
  have hsame : q.state.tables = p.state.tables ∧ q.state.turned = p.state.turned := by
    cases hprocessed with
    | skipped | withoutValue | reset => exact ⟨rfl, rfl⟩
    | evaluated value _ =>
      rw [hsorted]
      exact ⟨rfl, rfl⟩
  exact ⟨hsame.1, hsame.2, by simp [hnil], by simp [hnil]⟩

end Redelivery

/-- Assumes: after a run, an update is processed to the end. If it, or an older one, is delivered
again to a new processor, nothing changes, if and only if the timestamp of the update is a whole
number of seconds, or the rule has no triggers. -/
theorem redelivery_iff (rule : AlertRule) (events : List ProcessorEvent)
    (update : QuerySubscriptionUpdate) (value : ℚ)
    (hvalue : Evaluates rule ((processing rule).run events) update value) :
    let s := (((processing rule).run events).processUpdate rule update).state
    (∀ later, Redelivers update later →
      Unchanged rule s ((init s).processUpdate rule later).state) ↔
      (∃ seconds : ℤ, update.timestamp = seconds) ∨ rule.triggers = [] := by
  intro s
  have hcoherent := processing_coherent rule events
  have hafter := coherent_processUpdate hcoherent rule update
  have hstart : (init s).Coherent := coherent_init hafter.wellFormed hafter.incidentCoherent.cache
  have hlast : (init s).lastUpdate = ⌊update.timestamp⌋ := by
    rw [← lastUpdate_processUpdate hcoherent (processing_timesNonneg rule events) hvalue]
    rfl
  constructor
  · intro hunchanged
    by_contra hnone
    rw [not_or, not_exists] at hnone
    obtain ⟨hfraction, htriggers⟩ := hnone
    obtain ⟨trigger, htrigger⟩ := exists_mem_of_ne_nil _ htriggers
    have hfloor : (⌊update.timestamp⌋ : ℚ) < update.timestamp :=
      lt_of_le_of_ne (Int.floor_le _) (Ne.symm (hfraction ⌊update.timestamp⌋))
    obtain ⟨timestamp, hnewer, holder⟩ := exists_between hfloor
    rw [← hlast] at hnewer
    obtain ⟨later, hchanged⟩ := exists_changed hstart hnewer htrigger
    exact hchanged (hunchanged (wholeValueAt timestamp later) (Or.inr holder))
  · rintro (⟨seconds, hwhole⟩ | hnil) later hlater
    · have holder : later.timestamp ≤ update.timestamp := by
        rcases hlater with hsame | holder
        · exact hsame.timestamp_eq.le
        · exact holder.le
      have hskipped : ¬ Accepts rule (init s) later := fun haccepts ↦ by
        have hnewer := haccepts.newer
        rw [hlast, hwhole, Int.floor_intCast] at hnewer
        rw [hwhole] at holder
        exact hnewer.not_ge holder
      rw [processUpdate_of_not_accepts hskipped]
      exact Unchanged.refl rule s
    · exact unchanged_of_triggers_eq_nil (p := init s) hnil later

theorem redelivery_iff_twoInARow :
    let s := (((processing twoInARow).run []).processUpdate twoInARow (valueAt 60 200)).state
    (∀ later, Redelivers (valueAt 60 200) later →
      Unchanged twoInARow s ((init s).processUpdate twoInARow later).state) ↔
      (∃ seconds : ℤ, (60 : ℚ) = seconds) ∨ twoInARow.triggers = [] :=
  redelivery_iff twoInARow [] (valueAt 60 200) 200
    ⟨⟨by decide +kernel, by decide +kernel⟩, by decide +kernel⟩

/-- An update at half a second past 60 is counted again when it is delivered again. -/
theorem not_redelivery : ¬ ∀ (rule : AlertRule) (events : List ProcessorEvent)
    (update : QuerySubscriptionUpdate) (value : ℚ),
    Evaluates rule ((processing rule).run events) update value →
      let s := (((processing rule).run events).processUpdate rule update).state
      ∀ later, Redelivers update later →
        Unchanged rule s ((init s).processUpdate rule later).state := by
  intro hall
  have hunchanged := hall twoInARow [] (valueAt (121 / 2) 200) 200
    ⟨⟨by decide +kernel, by decide +kernel⟩, by decide +kernel⟩ (valueAt (121 / 2) 200)
    (Or.inl ⟨rfl, rfl, rfl, rfl⟩)
  have hturned := congrArg List.length hunchanged.turned_eq
  exact absurd hturned (by decide +kernel)

end Sentry.Incidents
