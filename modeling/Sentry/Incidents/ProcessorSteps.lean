import Sentry.Incidents.TriggerChecks

/-!
# A processor that processes several updates

A processor may process several updates before a new one is built (`processing`). All entries of
triggers that one update writes are handed over together, with the method of the first one. They do
not always have one status: a trigger can be fired while another is resolved, and within the resolve
threshold by the same value (`homogeneous_iff`).
-/

namespace Sentry.Incidents

open AlertTables Library SubscriptionProcessor List

def SubscriptionProcessor.processUpdate (rule : AlertRule) (p : SubscriptionProcessor)
    (update : QuerySubscriptionUpdate) : SubscriptionProcessor :=
  if ignoresUpdate rule update then p
  else if update.timestamp ≤ p.lastUpdate then p
  else
    let p := { p with lastUpdate := update.timestamp }
    match getAggregationValue rule update with
    | none => if rule.dataset = .metrics then p.resetTriggerCounts else p
    | some aggregationValue =>
      let p := { p with
        state := { p.state with evaluated := aggregationValue :: p.state.evaluated } }
      let p := rule.sortedTriggers.foldl (checkTrigger rule update aggregationValue) p
      p.updateAlertRuleStats

/-- A new processor is built, or an update is processed. -/
inductive ProcessorEvent
  | construct
  | update (update : QuerySubscriptionUpdate)

/-- The processors of a subscription. -/
def processing (rule : AlertRule) : Machine SubscriptionProcessor ProcessorEvent where
  init := init (subscription rule).init
  step p event :=
    match event with
    | .construct => init p.state
    | .update update => p.processUpdate rule update

/-- The update is neither ignored nor older than the last one. -/
structure Accepts (rule : AlertRule) (p : SubscriptionProcessor)
    (update : QuerySubscriptionUpdate) : Prop where
  not_ignored : ignoresUpdate rule update = false
  newer : p.lastUpdate < update.timestamp

/-- The update is evaluated to a value. -/
structure Evaluates (rule : AlertRule) (p : SubscriptionProcessor)
    (update : QuerySubscriptionUpdate) (value : ℚ) : Prop extends Accepts rule p update where
  value_eq : getAggregationValue rule update = some value

/-- The update is one of a metric without sessions, which resets the counts. -/
structure ResetsCounts (rule : AlertRule) (p : SubscriptionProcessor)
    (update : QuerySubscriptionUpdate) : Prop extends Accepts rule p update where
  value_eq : getAggregationValue rule update = none
  metrics : rule.dataset = .metrics

/-- The processor when the triggers are checked. -/
def SubscriptionProcessor.start (p : SubscriptionProcessor) (update : QuerySubscriptionUpdate)
    (value : ℚ) : SubscriptionProcessor :=
  { p with
    lastUpdate := update.timestamp
    state := { p.state with evaluated := value :: p.state.evaluated } }

section Steps

variable {rule : AlertRule} {p : SubscriptionProcessor} {update : QuerySubscriptionUpdate}
  {value : ℚ}

/-- What comes of an update. -/
inductive Processed (rule : AlertRule) (p : SubscriptionProcessor)
    (update : QuerySubscriptionUpdate) : SubscriptionProcessor → Prop
  | skipped (h : ¬ Accepts rule p update) : Processed rule p update p
  | withoutValue (h : Accepts rule p update) (hvalue : getAggregationValue rule update = none)
      (hother : rule.dataset ≠ .metrics) :
      Processed rule p update { p with lastUpdate := update.timestamp }
  | reset (h : ResetsCounts rule p update) :
      Processed rule p update { p with lastUpdate := update.timestamp }.resetTriggerCounts
  | evaluated (value : ℚ) (h : Evaluates rule p update value) :
      Processed rule p update (rule.sortedTriggers.foldl (checkTrigger rule update value)
        (p.start update value)).updateAlertRuleStats

theorem processed_processUpdate (rule : AlertRule) (p : SubscriptionProcessor)
    (update : QuerySubscriptionUpdate) :
    Processed rule p update (p.processUpdate rule update) := by
  rw [SubscriptionProcessor.processUpdate]
  by_cases hignored : ignoresUpdate rule update = true
  · rw [if_pos hignored]
    exact .skipped fun h ↦ Bool.false_ne_true (h.not_ignored.symm.trans hignored)
  rw [if_neg hignored]
  by_cases holder : update.timestamp ≤ p.lastUpdate
  · rw [if_pos holder]
    exact .skipped fun h ↦ h.newer.not_ge holder
  rw [if_neg holder]
  have haccepts : Accepts rule p update :=
    ⟨Bool.eq_false_of_not_eq_true hignored, not_le.mp holder⟩
  cases hvalue : getAggregationValue rule update with
  | none =>
    split_ifs with hmetrics
    · exact .reset ⟨haccepts, hvalue, hmetrics⟩
    · exact .withoutValue haccepts hvalue hmetrics
  | some value => exact .evaluated value ⟨haccepts, hvalue⟩

theorem processUpdate_of_evaluates (h : Evaluates rule p update value) :
    p.processUpdate rule update =
      (rule.sortedTriggers.foldl (checkTrigger rule update value)
        (p.start update value)).updateAlertRuleStats := by
  rw [SubscriptionProcessor.processUpdate, h.not_ignored, if_neg Bool.false_ne_true,
    if_neg h.newer.not_ge]
  rw [h.value_eq]
  rfl

theorem processUpdate_of_not_accepts (h : ¬ Accepts rule p update) :
    p.processUpdate rule update = p := by
  have hprocessed := processed_processUpdate rule p update
  generalize p.processUpdate rule update = q at hprocessed
  cases hprocessed with
  | skipped _ => rfl
  | withoutValue haccepts _ _ => exact absurd haccepts h
  | reset hreset => exact absurd hreset.toAccepts h
  | evaluated value hvalue => exact absurd hvalue.toAccepts h

theorem SubscriptionProcessor.Coherent.start (h : p.Coherent) : (p.start update value).Coherent :=
  ⟨h.wellFormed, ⟨h.incidentCoherent.cache, h.incidentCoherent.attr⟩, h.triggersCoherent⟩

theorem view_start (h : p.Coherent) (trigger : AlertRuleTrigger) :
    (p.start update value).view update trigger = p.view update trigger := by
  rw [view, h.isActive_congr h.start rfl]
  rfl

theorem SubscriptionProcessor.Coherent.updateAlertRuleStats (h : p.Coherent) :
    p.updateAlertRuleStats.Coherent :=
  ⟨h.wellFormed, ⟨h.incidentCoherent.cache, h.incidentCoherent.attr⟩, h.triggersCoherent⟩

theorem nodup_sortedTriggers (rule : AlertRule) : (rule.sortedTriggers.map (·.id)).Nodup :=
  (((perm_insertionSort _ rule.triggers).map _).nodup_iff).mpr rule.nodup

theorem mem_sortedTriggers {trigger : AlertRuleTrigger} :
    trigger ∈ rule.sortedTriggers ↔ trigger ∈ rule.triggers :=
  mem_insertionSort _

theorem checksAll_of_coherent (h : p.Coherent) (rule : AlertRule)
    (update : QuerySubscriptionUpdate) (value : ℚ) :
    ChecksAll rule update value rule.sortedTriggers (p.start update value)
      (rule.sortedTriggers.foldl (checkTrigger rule update value) (p.start update value)) :=
  foldl_checkTrigger_checks h.start rule update value (nodup_sortedTriggers rule)

theorem turned_of_not_evaluates (h : ∀ value, ¬ Evaluates rule p update value) :
    (p.processUpdate rule update).state.turned = p.state.turned := by
  have hprocessed := processed_processUpdate rule p update
  generalize p.processUpdate rule update = q at hprocessed
  cases hprocessed with
  | skipped | withoutValue | reset => rfl
  | evaluated value hvalue => exact absurd hvalue (h value)

theorem coherent_init {s : SubscriptionState} (hwellFormed : s.tables.WellFormed)
    (hcache : ∀ incident, s.activeIncidentCache = some incident →
      incident = s.tables.queryActiveIncident) : (init s).Coherent := by
  refine ⟨hwellFormed, ⟨hcache, ?_⟩, ?_⟩
  · intro incident hattr
    nomatch hattr
  · intro incidentTriggers hattr
    nomatch hattr

theorem coherent_processUpdate (h : p.Coherent) (rule : AlertRule)
    (update : QuerySubscriptionUpdate) : (p.processUpdate rule update).Coherent := by
  have hnewer : Coherent { p with lastUpdate := update.timestamp } :=
    ⟨h.wellFormed, ⟨h.incidentCoherent.cache, h.incidentCoherent.attr⟩, h.triggersCoherent⟩
  have hprocessed := processed_processUpdate rule p update
  generalize p.processUpdate rule update = q at hprocessed
  cases hprocessed with
  | skipped _ => exact h
  | withoutValue _ _ _ => exact hnewer
  | reset _ =>
    exact ((hnewer.setAlertCounts fun _ ↦ 0).setResolveCounts fun _ ↦ 0).updateAlertRuleStats
  | evaluated value _ =>
    exact (checksAll_of_coherent h rule update value).coherent.updateAlertRuleStats

end Steps

theorem coherent_step {rule : AlertRule} {p : SubscriptionProcessor} (h : p.Coherent)
    (event : ProcessorEvent) : ((processing rule).step p event).Coherent := by
  cases event with
  | construct => exact coherent_init h.wellFormed h.incidentCoherent.cache
  | update update => exact coherent_processUpdate h rule update

theorem processing_coherent (rule : AlertRule) (events : List ProcessorEvent) :
    ((processing rule).run events).Coherent := by
  have hinit := subscriptionInvariant_init rule
  exact (processing rule).run_invariant (coherent_init hinit.sound.wellFormed hinit.cache)
    (fun _ event h ↦ coherent_step h event) events

/-- `fired_incident_triggers`: the entries that one update writes. -/
def firedIncidentTriggers (rule : AlertRule) (p : SubscriptionProcessor)
    (update : QuerySubscriptionUpdate) : List IncidentTrigger :=
  ((p.processUpdate rule update).state.turned.drop p.state.turned.length).map (·.incidentTrigger)

/-- The entries name every trigger at most once, and have one status. An entry that is written twice
is one object, with the last status, but then its trigger is named twice. -/
structure Homogeneous (fired : List IncidentTrigger) : Prop where
  nodup : (fired.map (·.alertRuleTrigger.id)).Nodup
  status_eq : ∀ first ∈ fired, ∀ second ∈ fired, first.status = second.status

namespace TriggerView

variable {view : TriggerView} {rule : AlertRule} {trigger : AlertRuleTrigger} {value : ℚ}

theorem active_mem_statuses :
    .active ∈ view.statuses rule trigger value ↔ view.AlertFires rule trigger value := by
  rw [statuses]
  split_ifs with hfires hresolves <;> simp [hfires]

theorem resolved_mem_statuses :
    .resolved ∈ view.statuses rule trigger value ↔ view.ResolveFires rule trigger value := by
  rw [statuses]
  split_ifs with hfires hresolves hresolves <;> simp [hresolves]

theorem nodup_statuses_ids (h : ¬ (view.AlertFires rule trigger value ∧
    view.ResolveFires rule trigger value)) :
    ((view.statuses rule trigger value).map fun _ ↦ trigger.id).Nodup := by
  rw [statuses]
  by_cases hfires : view.AlertFires rule trigger value
  · rw [if_pos hfires, if_neg fun hresolves ↦ h ⟨hfires, hresolves⟩]
    exact nodup_singleton _
  · rw [if_neg hfires, nil_append]
    split_ifs
    · exact nodup_singleton _
    · exact nodup_nil

end TriggerView

section Fired

variable {rule : AlertRule} {p : SubscriptionProcessor} {update : QuerySubscriptionUpdate}
  {value : ℚ}

theorem keys_firedIncidentTriggers (h : p.Coherent) (hvalue : Evaluates rule p update value) :
    ((firedIncidentTriggers rule p update).map fun row ↦ (row.alertRuleTrigger.id, row.status)) =
      rule.sortedTriggers.flatMap fun trigger ↦
        ((p.view update trigger).statuses rule trigger value).map fun status ↦
          (trigger.id, status) := by
  have hwritten := (checksAll_of_coherent h rule update value).written_eq
  have hdrop := congrArg (List.drop p.state.turned.length) hwritten
  rw [drop_left' (show (p.start update value).state.written.length = p.state.turned.length
    from length_map _)] at hdrop
  simp only [view_start h] at hdrop
  rw [← hdrop, firedIncidentTriggers, processUpdate_of_evaluates hvalue, map_map,
    SubscriptionState.written, ← map_drop]
  rfl

theorem exists_firedIncidentTrigger_iff (h : p.Coherent)
    (hvalue : Evaluates rule p update value) (id : ℕ) (status : TriggerStatus) :
    (∃ row ∈ firedIncidentTriggers rule p update,
      (row.alertRuleTrigger.id, row.status) = (id, status)) ↔
      ∃ trigger ∈ rule.triggers, status ∈ (p.view update trigger).statuses rule trigger value ∧
        trigger.id = id := by
  rw [← mem_map, keys_firedIncidentTriggers h hvalue, mem_flatMap]
  simp [mem_sortedTriggers]

def TurnsOneWay (rule : AlertRule) (p : SubscriptionProcessor) (update : QuerySubscriptionUpdate)
    (value : ℚ) : Prop :=
  ∀ first ∈ rule.triggers, ∀ second ∈ rule.triggers,
    ¬ ((p.view update first).AlertFires rule first value ∧
      (p.view update second).ResolveFires rule second value)

section

variable (h : p.Coherent) (hvalue : Evaluates rule p update value)

include h hvalue

theorem nodup_ids_firedIncidentTriggers (hone : TurnsOneWay rule p update value) :
    ((firedIncidentTriggers rule p update).map (·.alertRuleTrigger.id)).Nodup := by
  have hids : (firedIncidentTriggers rule p update).map (·.alertRuleTrigger.id) =
      rule.sortedTriggers.flatMap fun trigger ↦
        ((p.view update trigger).statuses rule trigger value).map fun _ ↦ trigger.id := by
    have hfirst := congrArg (List.map Prod.fst) (keys_firedIncidentTriggers h hvalue)
    rw [map_map, map_flatMap] at hfirst
    simp only [map_map] at hfirst
    exact hfirst
  rw [hids, nodup_flatMap]
  constructor
  · intro trigger htrigger
    rw [mem_sortedTriggers] at htrigger
    exact TriggerView.nodup_statuses_ids (hone trigger htrigger trigger htrigger)
  · have hdistinct := pairwise_map.mp (nodup_sortedTriggers rule)
    refine hdistinct.imp fun hne id hfirst hsecond ↦ hne ?_
    obtain ⟨-, -, rfl⟩ := mem_map.mp hfirst
    obtain ⟨-, -, hid⟩ := mem_map.mp hsecond
    exact hid.symm

theorem not_turnsOneWay {first second : IncidentTrigger}
    (hfirst : first ∈ firedIncidentTriggers rule p update)
    (hsecond : second ∈ firedIncidentTriggers rule p update) (hactive : first.status = .active)
    (hresolved : second.status = .resolved) : ¬ TurnsOneWay rule p update value := by
  obtain ⟨trigger, htrigger, hstatus, -⟩ :=
    (exists_firedIncidentTrigger_iff h hvalue _ _).mp ⟨first, hfirst, rfl⟩
  obtain ⟨trigger', htrigger', hstatus', -⟩ :=
    (exists_firedIncidentTrigger_iff h hvalue _ _).mp ⟨second, hsecond, rfl⟩
  rw [hactive, TriggerView.active_mem_statuses] at hstatus
  rw [hresolved, TriggerView.resolved_mem_statuses] at hstatus'
  exact fun hone ↦ hone trigger htrigger trigger' htrigger' ⟨hstatus, hstatus'⟩

theorem homogeneous_iff_of_evaluates :
    Homogeneous (firedIncidentTriggers rule p update) ↔ TurnsOneWay rule p update value := by
  constructor
  · intro hone first hfirst second hsecond ⟨hfires, hresolves⟩
    obtain ⟨row, hrow, hkey⟩ := (exists_firedIncidentTrigger_iff h hvalue first.id .active).mpr
      ⟨first, hfirst, TriggerView.active_mem_statuses.mpr hfires, rfl⟩
    obtain ⟨row', hrow', hkey'⟩ :=
      (exists_firedIncidentTrigger_iff h hvalue second.id .resolved).mpr
        ⟨second, hsecond, TriggerView.resolved_mem_statuses.mpr hresolves, rfl⟩
    have hsame := hone.status_eq row hrow row' hrow'
    rw [(Prod.mk.inj hkey).2, (Prod.mk.inj hkey').2] at hsame
    nomatch hsame
  · intro hone
    refine ⟨nodup_ids_firedIncidentTriggers h hvalue hone, fun first hfirst second hsecond ↦ ?_⟩
    cases hactive : first.status with
    | active =>
      cases hresolved : second.status with
      | active => rfl
      | resolved => exact absurd hone (not_turnsOneWay h hvalue hfirst hsecond hactive hresolved)
    | resolved =>
      cases hfired : second.status with
      | active => exact absurd hone (not_turnsOneWay h hvalue hsecond hfirst hfired hactive)
      | resolved => rfl

end

theorem firedIncidentTriggers_of_not_evaluates (h : ∀ value, ¬ Evaluates rule p update value) :
    firedIncidentTriggers rule p update = [] := by
  rw [firedIncidentTriggers, turned_of_not_evaluates h, drop_length, map_nil]

end Fired

/-- After every run, the entries that an update writes name every trigger once and have one status
if and only if no trigger is fired while one is resolved: no trigger whose threshold the value
breaches often enough, which is neither active nor rate limited, together with one that is active,
or just fired, and is within its resolve threshold often enough. -/
theorem homogeneous_iff (rule : AlertRule) (events : List ProcessorEvent)
    (update : QuerySubscriptionUpdate) :
    let p := (processing rule).run events
    Homogeneous (firedIncidentTriggers rule p update) ↔
      ∀ value, Evaluates rule p update value →
        ∀ first ∈ rule.triggers, ∀ second ∈ rule.triggers,
          ¬ ((p.view update first).AlertFires rule first value ∧
            (p.view update second).ResolveFires rule second value) := by
  intro p
  have h : p.Coherent := processing_coherent rule events
  by_cases hevaluates : ∃ value, Evaluates rule p update value
  · obtain ⟨value, hvalue⟩ := hevaluates
    rw [homogeneous_iff_of_evaluates h hvalue]
    refine ⟨fun hnever other hother ↦ ?_, fun hnever ↦ hnever value hvalue⟩
    rwa [← Option.some.inj (hvalue.value_eq.symm.trans hother.value_eq)]
  · rw [not_exists] at hevaluates
    rw [firedIncidentTriggers_of_not_evaluates hevaluates]
    refine iff_of_true ⟨nodup_nil, ?_⟩ fun value hvalue ↦ absurd hvalue (hevaluates value)
    intro first hfirst
    nomatch hfirst

def warnsAndAlerts : AlertRule where
  dataset := .events
  thresholdType := .above
  resolveThreshold := none
  thresholdPeriod := 1
  comparisonDelta := none
  triggers := [⟨1, .warning, 100⟩, ⟨2, .critical, 200⟩]
  nodup := by decide

/-- The warning is fired and resolved. When it is rate limited, the critical trigger is fired
without it, so that a value between the thresholds later fires the one and resolves the other. -/
theorem not_homogeneous : ¬ ∀ (rule : AlertRule) (events : List ProcessorEvent)
    (update : QuerySubscriptionUpdate),
    Homogeneous (firedIncidentTriggers rule ((processing rule).run events) update) := by
  intro hall
  have hstatus := (hall warnsAndAlerts [.update (valueAt 60 150), .update (valueAt 120 50),
    .update (valueAt 180 250)] (valueAt 760 150)).status_eq
  have hfired : firedIncidentTriggers warnsAndAlerts ((processing warnsAndAlerts).run
      [.update (valueAt 60 150), .update (valueAt 120 50), .update (valueAt 180 250)])
      (valueAt 760 150) =
        [⟨2, ⟨1, .warning, 100⟩, .active⟩, ⟨2, ⟨2, .critical, 200⟩, .resolved⟩] := by
    decide +kernel
  rw [hfired] at hstatus
  exact absurd hstatus (by decide)

end Sentry.Incidents
