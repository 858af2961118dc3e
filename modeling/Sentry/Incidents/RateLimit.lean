import Sentry.Incidents.IncidentTables

/-!
# The rate limit of incidents

A trigger that would be turned active stays inactive if its latest incident was added at most ten
minutes ago. The age of the incident is taken from `timedelta.seconds`, which leaves out whole days
and parts of a second, so that an incident of another day can suppress a new one as well
(`rateLimit_iff`).
-/

namespace Sentry.Incidents

open SubscriptionProcessor Option

/-- The incident of the latest entry of a trigger. -/
def AlertTables.lastIncident (tables : AlertTables) (trigger : AlertRuleTrigger) :
    Option Incident :=
  ((tables.incidentTriggers.filter fun row ↦ row.alertRuleTrigger.id = trigger.id).argmax
    (·.incidentId)).bind fun row ↦
      tables.incidents.find? fun incident ↦ incident.id = row.incidentId

/-- The latest incident of the trigger covers the project, and was added within ten minutes. -/
def AlertTables.RecentIncident (tables : AlertTables) (trigger : AlertRuleTrigger)
    (laterElsewhere : Bool) (now : ℚ) : Prop :=
  ∃ incident, tables.lastIncident trigger = some incident ∧ laterElsewhere = false ∧
    0 ≤ now - incident.dateAdded ∧ now - incident.dateAdded ≤ 600

/-- The trigger is active for the processor. -/
def SubscriptionProcessor.isActive (p : SubscriptionProcessor) (trigger : AlertRuleTrigger) :
    Bool :=
  (p.checkTriggerMatchesStatus trigger .active).1

/-- The age, in seconds, is part of the second after ten minutes, or less than that after some whole
days. -/
def MistakenAge (age : ℚ) : Prop :=
  (600 < age ∧ age < 601) ∨ ∃ days : ℤ, days ≠ 0 ∧ days * 86400 ≤ age ∧ age < days * 86400 + 601

/-- What the seconds of a `timedelta` say. -/
theorem seconds_le_iff (age : ℚ) :
    ((⌊age⌋ % 86400 : ℤ) : ℚ) / 60 ≤ 10 ↔ (0 ≤ age ∧ age ≤ 600) ∨ MistakenAge age := by
  have hfloor : ((⌊age⌋ % 86400 : ℤ) : ℚ) / 60 ≤ 10 ↔ ⌊age⌋ % 86400 ≤ 600 := by
    rw [div_le_iff₀ (by norm_num), ← Int.cast_le (R := ℚ)]
    norm_num
  have hbounds (days : ℤ) : ((days * 86400 : ℚ) ≤ age ∧ age < days * 86400 + 601) ↔
      days * 86400 ≤ ⌊age⌋ ∧ ⌊age⌋ < days * 86400 + 601 := by
    rw [Int.le_floor, Int.floor_lt]
    push_cast
    rfl
  rw [hfloor]
  constructor
  · intro hle
    by_cases hday : ⌊age⌋ / 86400 = 0
    · have hage := (hbounds 0).mpr (by omega)
      rcases le_or_gt age 600 with hten | hten
      · exact Or.inl ⟨by simpa using hage.1, hten⟩
      · exact Or.inr (Or.inl ⟨hten, by simpa using hage.2⟩)
    · exact Or.inr (Or.inr ⟨⌊age⌋ / 86400, hday, (hbounds _).mpr (by omega)⟩)
  · rintro (⟨hzero, hten⟩ | ⟨hten, hless⟩ | ⟨days, -, hdays⟩)
    · have hage := (hbounds 0).mp ⟨by simpa using hzero, by push_cast; linarith⟩
      omega
    · have hage := (hbounds 0).mp ⟨by push_cast; linarith, by push_cast; linarith⟩
      omega
    · have hage := (hbounds days).mp hdays
      omega

theorem not_mistakenAge_of_recent {age : ℚ} (hzero : 0 ≤ age) (hten : age ≤ 600) :
    ¬ MistakenAge age := by
  rintro (⟨hlate, -⟩ | ⟨days, hdays, hfirst, hlast⟩)
  · linarith
  · rcases lt_or_gt_of_ne hdays with hpast | hfuture
    · have hcast : (days : ℚ) ≤ -1 := by exact_mod_cast Int.le_sub_one_of_lt hpast
      linarith
    · have hcast : (1 : ℚ) ≤ days := by exact_mod_cast hfuture
      linarith

section Reads

variable (p : SubscriptionProcessor)

theorem incidentTriggersAttr_incidentTriggerMap :
    p.incidentTriggerMap.2.incidentTriggersAttr = some p.incidentTriggerMap.1 := by
  rw [incidentTriggerMap]
  cases hattr : p.incidentTriggersAttr with
  | some incidentTriggers => exact hattr
  | none => rfl

theorem tables_activeIncident : p.activeIncident.2.state.tables = p.state.tables := by
  rw [activeIncident]
  cases p.activeIncidentAttr with
  | some incident => rfl
  | none =>
    rw [SubscriptionState.getActiveIncident]
    cases p.state.activeIncidentCache with
    | some | none => rfl

theorem triggerAlertCounts_activeIncident :
    p.activeIncident.2.triggerAlertCounts = p.triggerAlertCounts := by
  rw [activeIncident]
  cases p.activeIncidentAttr with
  | some | none => rfl

theorem tables_incidentTriggerMap : p.incidentTriggerMap.2.state.tables = p.state.tables := by
  rw [incidentTriggerMap]
  cases p.incidentTriggersAttr with
  | some incidentTriggers => rfl
  | none => exact tables_activeIncident p

theorem triggerAlertCounts_incidentTriggerMap :
    p.incidentTriggerMap.2.triggerAlertCounts = p.triggerAlertCounts := by
  rw [incidentTriggerMap]
  cases p.incidentTriggersAttr with
  | some incidentTriggers => rfl
  | none => exact triggerAlertCounts_activeIncident p

theorem isActive_of_attr {incidentTriggers : List IncidentTrigger}
    (h : p.incidentTriggersAttr = some incidentTriggers) (trigger : AlertRuleTrigger) :
    p.isActive trigger =
      (getTrigger incidentTriggers trigger).any fun row ↦ row.status = .active := by
  rw [isActive, checkTriggerMatchesStatus, incidentTriggerMap, h]

end Reads

theorem rateLimited_eq (tables : AlertTables) (trigger : AlertRuleTrigger) (laterElsewhere : Bool)
    (now : ℚ) : tables.rateLimited trigger laterElsewhere now =
      (tables.lastIncident trigger).any fun incident ↦ !laterElsewhere &&
        decide (((⌊now - incident.dateAdded⌋ % 86400 : ℤ) : ℚ) / 60 ≤ 10) := by
  rw [AlertTables.rateLimited, AlertTables.lastIncident]
  split
  next hnone => rw [hnone, any_none]
  next incident hsome => rw [hsome, any_some]

theorem incidentTriggersAttr_activateTrigger (p : SubscriptionProcessor)
    (trigger : AlertRuleTrigger) (dateAdded : ℚ) :
    (p.activateTrigger trigger dateAdded).incidentTriggersAttr =
      some (setTrigger (p.ensureIncident dateAdded).2.incidentTriggerMap.1
        ⟨(p.ensureIncident dateAdded).1.id, trigger, .active⟩) := rfl

theorem isActive_activateTrigger (p : SubscriptionProcessor) (trigger : AlertRuleTrigger)
    (dateAdded : ℚ) : (p.activateTrigger trigger dateAdded).isActive trigger = true := by
  rw [isActive_of_attr _ (incidentTriggersAttr_activateTrigger p trigger dateAdded)]
  obtain ⟨row, hrow, hstatus⟩ := getTrigger_setTrigger_self
    (p.ensureIncident dateAdded).2.incidentTriggerMap.1
    ⟨(p.ensureIncident dateAdded).1.id, trigger, .active⟩
  rw [hrow, any_some, hstatus]
  rfl

section Alerts

variable {rule : AlertRule} {update : QuerySubscriptionUpdate} {value : ℚ}
  {p : SubscriptionProcessor} {trigger : AlertRuleTrigger}

theorem isActive_checkAlert
    (hvalue : rule.thresholdType.alertOperator value trigger.alertThreshold = true)
    (hinactive : p.isActive trigger = false)
    (hperiod : rule.thresholdPeriod ≤ p.triggerAlertCounts trigger.id + 1) :
    (checkAlert rule update value p trigger).isActive trigger = false ↔
      p.state.tables.rateLimited trigger (update.laterElsewhere trigger.id)
        (update.now trigger.id) = true := by
  have hread := incidentTriggersAttr_incidentTriggerMap p
  have hcheck : checkAlert rule update value p trigger =
      p.incidentTriggerMap.2.triggerAlertThreshold rule trigger update := by
    have hmatches : p.checkTriggerMatchesStatus trigger .active =
        (false, p.incidentTriggerMap.2) := Prod.ext hinactive rfl
    rw [checkAlert, if_pos hvalue, hmatches]
  rw [hcheck, triggerAlertThreshold, tables_incidentTriggerMap,
    triggerAlertCounts_incidentTriggerMap]
  cases hlimited : p.state.tables.rateLimited trigger (update.laterElsewhere trigger.id)
      (update.now trigger.id) with
  | true =>
    have hattr (counts : ℕ → ℕ) :
        { p.incidentTriggerMap.2 with triggerAlertCounts := counts }.incidentTriggersAttr =
          some p.incidentTriggerMap.1 := hread
    refine iff_of_true ?_ rfl
    rw [if_pos rfl, isActive_of_attr _ (hattr _), ← hinactive]
    rfl
  | false =>
    rw [if_neg Bool.false_ne_true, if_pos hperiod]
    refine iff_of_false ?_ Bool.false_ne_true
    rw [Bool.not_eq_false]
    exact isActive_activateTrigger _ trigger _

/-- Assumes: a value breaches the threshold of a trigger that is inactive, often enough. It leaves
the trigger inactive exactly for a recent incident, if and only if the age of the latest incident,
if that covers the project, is not mistaken. -/
theorem rateLimit_iff
    (hvalue : rule.thresholdType.alertOperator value trigger.alertThreshold = true)
    (hinactive : p.isActive trigger = false)
    (hperiod : rule.thresholdPeriod ≤ p.triggerAlertCounts trigger.id + 1) :
    ((checkAlert rule update value p trigger).isActive trigger = false ↔
      p.state.tables.RecentIncident trigger (update.laterElsewhere trigger.id)
        (update.now trigger.id)) ↔
      ∀ incident, p.state.tables.lastIncident trigger = some incident →
        update.laterElsewhere trigger.id = false →
          ¬ MistakenAge (update.now trigger.id - incident.dateAdded) := by
  rw [isActive_checkAlert hvalue hinactive hperiod, rateLimited_eq]
  cases hlast : p.state.tables.lastIncident trigger with
  | none =>
    refine iff_of_true (iff_of_false Bool.false_ne_true ?_) fun _ hnone ↦ nomatch hnone
    rintro ⟨incident, hincident, -⟩
    rw [hlast] at hincident
    nomatch hincident
  | some incident =>
    have hrecent : p.state.tables.RecentIncident trigger (update.laterElsewhere trigger.id)
        (update.now trigger.id) ↔ update.laterElsewhere trigger.id = false ∧
          0 ≤ update.now trigger.id - incident.dateAdded ∧
          update.now trigger.id - incident.dateAdded ≤ 600 := by
      rw [AlertTables.RecentIncident, hlast]
      exact ⟨fun ⟨other, hother, h⟩ ↦ Option.some.inj hother ▸ h, fun h ↦ ⟨incident, rfl, h⟩⟩
    rw [hrecent, any_some, Bool.and_eq_true, Bool.not_eq_true', decide_eq_true_iff, seconds_le_iff]
    constructor
    · intro h other hother helsewhere hmistaken
      rw [← Option.some.inj hother] at hmistaken
      obtain ⟨-, hzero, hten⟩ := h.mp ⟨helsewhere, Or.inr hmistaken⟩
      exact not_mistakenAge_of_recent hzero hten hmistaken
    · intro h
      refine ⟨fun ⟨helsewhere, hage⟩ ↦ ⟨helsewhere, ?_⟩, fun ⟨helsewhere, hage⟩ ↦
        ⟨helsewhere, Or.inl hage⟩⟩
      exact hage.resolve_right (h incident rfl helsewhere)

end Alerts

/-- A rule of one critical trigger, which a single value turns. -/
def atOnce : AlertRule where
  dataset := .events
  thresholdType := .above
  resolveThreshold := none
  thresholdPeriod := 1
  comparisonDelta := none
  triggers := [⟨1, .critical, 100⟩]
  nodup := List.nodup_singleton _

/-- The latest incident of the trigger is closed. It was added at time 0. -/
def afterIncident : SubscriptionProcessor :=
  init
    { tables := ⟨[⟨1, .closed, 0⟩], [⟨1, ⟨1, .critical, 100⟩, .resolved⟩], 2⟩
      activeIncidentCache := none
      stats := ⟨0, fun _ ↦ 0, fun _ ↦ 0⟩
      evaluated := []
      turned := [] }

/-- An update with the value 200, which is processed at the time of its timestamp. -/
def breachAt (timestamp : ℚ) : QuerySubscriptionUpdate where
  timestamp := timestamp
  value := some 200
  totalSessionCount := 0
  crashCount := 0
  comparisonAggregate := none
  projectExists := true
  hasIncidents := true
  hasPerformanceView := true
  laterElsewhere := fun _ ↦ false
  now := fun _ ↦ timestamp
  dateAdded := fun _ ↦ timestamp

theorem rateLimit_iff_atOnce :
    ((checkAlert atOnce (breachAt 60) 200 afterIncident ⟨1, .critical, 100⟩).isActive
        ⟨1, .critical, 100⟩ = false ↔
      afterIncident.state.tables.RecentIncident ⟨1, .critical, 100⟩ false 60) ↔
      ∀ incident, afterIncident.state.tables.lastIncident ⟨1, .critical, 100⟩ = some incident →
        false = false → ¬ MistakenAge (60 - incident.dateAdded) :=
  rateLimit_iff (by decide +kernel) (by decide +kernel) (by decide +kernel)

/-- An incident of the day before suppresses a new one. -/
theorem not_rateLimit :
    ¬ ((checkAlert atOnce (breachAt 86700) 200 afterIncident ⟨1, .critical, 100⟩).isActive
        ⟨1, .critical, 100⟩ = false ↔
      afterIncident.state.tables.RecentIncident ⟨1, .critical, 100⟩ false 86700) := by
  have hinactive : (checkAlert atOnce (breachAt 86700) 200 afterIncident
      ⟨1, .critical, 100⟩).isActive ⟨1, .critical, 100⟩ = false := by decide +kernel
  have hlast : afterIncident.state.tables.lastIncident ⟨1, .critical, 100⟩ =
      some ⟨1, .closed, 0⟩ := by decide +kernel
  rintro ⟨hrecent, -⟩
  obtain ⟨incident, hincident, -, -, hten⟩ := hrecent hinactive
  rw [hlast] at hincident
  rw [← Option.some.inj hincident] at hten
  norm_num at hten

end Sentry.Incidents
