import Sentry.Library.Machine
import Sentry.Library.Streak
import Mathlib.Data.List.MinMax
import Mathlib.Data.List.Sort
import Mathlib.Data.Rat.Floor

/-!
# The subscription processor of metric alerts

`incidents/subscription_processor.py`. Every update of a subscription is processed by a new
processor. A trigger that has been breached often enough in a row turns `ACTIVE` and opens an
incident, and one that has been resolved often enough turns `RESOLVED`; when all triggers of the
incident are resolved, it is closed.

The state is that of one rule and one subscription, and a history records the values that were
evaluated and the entries of triggers that were written. The thresholds are static and floats are
rational. Notifications, activity records and the other dates of an incident are left out.
-/

namespace Sentry.Incidents

open Library

/-- `AlertRuleThresholdType`, for static thresholds. -/
inductive AlertRuleThresholdType
  | above
  | below
  deriving DecidableEq

/-- The alert operator. -/
def AlertRuleThresholdType.alertOperator : AlertRuleThresholdType → ℚ → ℚ → Bool
  | above, value, threshold => decide (threshold < value)
  | below, value, threshold => decide (value < threshold)

def AlertRuleThresholdType.resolveOperator : AlertRuleThresholdType → ℚ → ℚ → Bool
  | above, value, threshold => decide (value < threshold)
  | below, value, threshold => decide (threshold < value)

/-- `WARNING_TRIGGER_LABEL` and `CRITICAL_TRIGGER_LABEL`. -/
inductive TriggerLabel
  | warning
  | critical
  deriving DecidableEq

structure AlertRuleTrigger where
  id : ℕ
  label : TriggerLabel
  alertThreshold : ℚ
  deriving DecidableEq

/-- `Dataset`, as far as updates are treated differently. -/
inductive Dataset
  | events
  | transactions
  | metrics
  | other
  deriving DecidableEq

/-- `AlertRule`, with the dataset of its query and its triggers. -/
structure AlertRule where
  dataset : Dataset
  thresholdType : AlertRuleThresholdType
  resolveThreshold : Option ℚ
  thresholdPeriod : ℕ
  comparisonDelta : Option ℕ
  triggers : List AlertRuleTrigger
  nodup : (triggers.map (·.id)).Nodup

def AlertRule.calculateResolveThreshold (rule : AlertRule) (trigger : AlertRuleTrigger) : ℚ :=
  match rule.resolveThreshold with
  | some resolveThreshold =>
    if rule.triggers.length = 1 ∨ trigger.label = .warning then resolveThreshold
    else trigger.alertThreshold + resolveAdd
  | none => trigger.alertThreshold + resolveAdd
where
  resolveAdd : ℚ :=
    match rule.thresholdType with
    | .above => 1 / 1000000
    | .below => -(1 / 1000000)

/-- A subscription update, with what is read outside while it is processed: whether the project
exists and has the features, the result of the comparison query, and for each trigger whether the
rule has a later incident of it for another project, the clock when the last incident is looked up,
and the clock when an incident is added. -/
structure QuerySubscriptionUpdate where
  timestamp : ℚ
  value : Option ℚ
  totalSessionCount : ℚ
  crashCount : ℚ
  comparisonAggregate : Option ℚ
  projectExists : Bool
  hasIncidents : Bool
  hasPerformanceView : Bool
  laterElsewhere : ℕ → Bool
  now : ℕ → ℚ
  dateAdded : ℕ → ℚ

/-- `round(value)`: a value in the middle is rounded to the even integer. -/
def roundHalfEven (value : ℚ) : ℤ :=
  let below := ⌊value⌋
  if value - below < 1 / 2 then below
  else if 1 / 2 < value - below then below + 1
  else if 2 ∣ below then below
  else below + 1

def getComparisonAggregationValue (update : QuerySubscriptionUpdate) (aggregationValue : ℚ) :
    Option ℚ :=
  match update.comparisonAggregate with
  | none => none
  | some comparisonAggregate =>
    if comparisonAggregate = 0 then none else some (aggregationValue / comparisonAggregate * 100)

/-- `get_crash_rate_alert_metrics_aggregation_value`, in either format. Without sessions the counts
are reset, and there is no value. -/
def getCrashRateAlertMetricsAggregationValue (update : QuerySubscriptionUpdate) : Option ℚ :=
  if update.totalSessionCount = 0 then none
  else some (roundHalfEven ((1 - update.crashCount / update.totalSessionCount) * 100 * 1000) / 1000)

def getAggregationValue (rule : AlertRule) (update : QuerySubscriptionUpdate) : Option ℚ :=
  if rule.dataset = .metrics then getCrashRateAlertMetricsAggregationValue update
  else
    let aggregationValue := update.value.getD 0
    if rule.comparisonDelta.getD 0 ≠ 0 then getComparisonAggregationValue update aggregationValue
    else some aggregationValue

/-- `IncidentStatus`. `opened` is `OPEN`. -/
inductive IncidentStatus
  | opened
  | closed
  | warning
  | critical
  deriving DecidableEq

inductive TriggerStatus
  | active
  | resolved
  deriving DecidableEq

/-- A row of `Incident`. -/
structure Incident where
  id : ℕ
  status : IncidentStatus
  dateAdded : ℚ
  deriving DecidableEq

/-- A row of `IncidentTrigger`. -/
structure IncidentTrigger where
  incidentId : ℕ
  alertRuleTrigger : AlertRuleTrigger
  status : TriggerStatus
  deriving DecidableEq

/-- The rows of the rule and the subscription. -/
structure AlertTables where
  incidents : List Incident
  incidentTriggers : List IncidentTrigger
  nextIncidentId : ℕ

namespace AlertTables

variable (tables : AlertTables)

/-- The query of `get_active_incident`: the latest incident that is not closed. -/
def queryActiveIncident : Option Incident :=
  (tables.incidents.filter fun incident ↦ incident.status ≠ .closed).argmax (·.dateAdded)

def triggersOf (incidentId : ℕ) : List IncidentTrigger :=
  tables.incidentTriggers.filter fun incidentTrigger ↦ incidentTrigger.incidentId = incidentId

/-- `Incident.objects.create`. -/
def createIncident (dateAdded : ℚ) : AlertTables :=
  { tables with
    incidents := tables.incidents ++ [⟨tables.nextIncidentId, .opened, dateAdded⟩]
    nextIncidentId := tables.nextIncidentId + 1 }

/-- `incident.update(status=..)`. -/
def setStatus (incidentId : ℕ) (status : IncidentStatus) : AlertTables :=
  { tables with incidents := tables.incidents.map fun incident ↦
      if incident.id = incidentId then { incident with status := status } else incident }

/-- `incident_trigger.save()`. -/
def saveTrigger (incidentTrigger : IncidentTrigger) : AlertTables :=
  { tables with incidentTriggers := tables.incidentTriggers.map fun row ↦
      if row.incidentId = incidentTrigger.incidentId ∧
        row.alertRuleTrigger.id = incidentTrigger.alertRuleTrigger.id then
        { row with status := incidentTrigger.status }
      else row }

/-- `IncidentTrigger.objects.create`. -/
def createTrigger (incidentTrigger : IncidentTrigger) : AlertTables :=
  { tables with incidentTriggers := tables.incidentTriggers ++ [incidentTrigger] }

/-- The latest incident of the trigger is one of the subscription, and was added at most ten minutes
ago. -/
def rateLimited (trigger : AlertRuleTrigger) (laterElsewhere : Bool) (now : ℚ) : Bool :=
  let last := (tables.incidentTriggers.filter fun row ↦ row.alertRuleTrigger.id = trigger.id).argmax
    (·.incidentId)
  match last.bind fun row ↦ tables.incidents.find? fun incident ↦ incident.id = row.incidentId with
  | none => false
  | some lastIncident =>
    -- `timedelta.seconds` leaves out whole days
    !laterElsewhere && decide (((⌊now - lastIncident.dateAdded⌋ % 86400 : ℤ) : ℚ) / 60 ≤ 10)

end AlertTables

/-- The statistics in Redis. -/
structure AlertRuleStats where
  lastUpdate : ℤ
  triggerAlertCounts : ℕ → ℕ
  triggerResolveCounts : ℕ → ℕ

/-- A trigger that was turned: the entry that was written, and the values evaluated up to then, the
latest first. -/
structure TurnedTrigger where
  incidentTrigger : IncidentTrigger
  evaluated : List ℚ
  deriving DecidableEq

/-- The state between updates, and the history. In the cache an incident that is missing is cached
as well. -/
structure SubscriptionState where
  tables : AlertTables
  activeIncidentCache : Option (Option Incident)
  stats : AlertRuleStats
  evaluated : List ℚ
  turned : List TurnedTrigger

/-- `get_active_incident`. The second lookup, for an incident without a subscription, finds nothing,
since every incident is added with the subscription. -/
def SubscriptionState.getActiveIncident (s : SubscriptionState) :
    Option Incident × SubscriptionState :=
  match s.activeIncidentCache with
  | some incident => (incident, s)
  | none =>
    (s.tables.queryActiveIncident,
      { s with activeIncidentCache := some s.tables.queryActiveIncident })

/-- `SubscriptionProcessor`. The last two are the attributes `_active_incident` and
`_incident_triggers`, which are set when they are first read. -/
structure SubscriptionProcessor where
  state : SubscriptionState
  lastUpdate : ℚ
  triggerAlertCounts : ℕ → ℕ
  triggerResolveCounts : ℕ → ℕ
  origTriggerAlertCounts : ℕ → ℕ
  origTriggerResolveCounts : ℕ → ℕ
  activeIncidentAttr : Option (Option Incident)
  incidentTriggersAttr : Option (List IncidentTrigger)

namespace SubscriptionProcessor

def init (s : SubscriptionState) : SubscriptionProcessor where
  state := s
  lastUpdate := s.stats.lastUpdate
  triggerAlertCounts := s.stats.triggerAlertCounts
  triggerResolveCounts := s.stats.triggerResolveCounts
  origTriggerAlertCounts := s.stats.triggerAlertCounts
  origTriggerResolveCounts := s.stats.triggerResolveCounts
  activeIncidentAttr := none
  incidentTriggersAttr := none

def activeIncident (p : SubscriptionProcessor) : Option Incident × SubscriptionProcessor :=
  match p.activeIncidentAttr with
  | some incident => (incident, p)
  | none =>
    let (incident, state) := p.state.getActiveIncident
    (incident, { p with state := state, activeIncidentAttr := some incident })

def incidentTriggerMap (p : SubscriptionProcessor) : List IncidentTrigger × SubscriptionProcessor :=
  match p.incidentTriggersAttr with
  | some incidentTriggers => (incidentTriggers, p)
  | none =>
    let (incident, p) := p.activeIncident
    let incidentTriggers :=
      (incident.map fun incident ↦ p.state.tables.triggersOf incident.id).getD []
    (incidentTriggers, { p with incidentTriggersAttr := some incidentTriggers })

def getTrigger (incidentTriggers : List IncidentTrigger) (trigger : AlertRuleTrigger) :
    Option IncidentTrigger :=
  incidentTriggers.find? fun row ↦ row.alertRuleTrigger.id = trigger.id

def setTrigger (incidentTriggers : List IncidentTrigger) (incidentTrigger : IncidentTrigger) :
    List IncidentTrigger :=
  if (getTrigger incidentTriggers incidentTrigger.alertRuleTrigger).isSome then
    incidentTriggers.map fun row ↦
      if row.alertRuleTrigger.id = incidentTrigger.alertRuleTrigger.id then
        { row with status := incidentTrigger.status }
      else row
  else incidentTriggers ++ [incidentTrigger]

def checkTriggerMatchesStatus (p : SubscriptionProcessor) (trigger : AlertRuleTrigger)
    (status : TriggerStatus) : Bool × SubscriptionProcessor :=
  let (incidentTriggers, p) := p.incidentTriggerMap
  ((getTrigger incidentTriggers trigger).any fun row ↦ row.status = status, p)

/-- `update_alert_rule_stats`. Only the counts that have changed are written. -/
def updateAlertRuleStats (p : SubscriptionProcessor) : SubscriptionProcessor :=
  { p with state := { p.state with
      stats :=
        { lastUpdate := p.lastUpdate.num.tdiv p.lastUpdate.den
          triggerAlertCounts := fun triggerId ↦
            if p.triggerAlertCounts triggerId ≠ p.origTriggerAlertCounts triggerId then
              p.triggerAlertCounts triggerId
            else p.state.stats.triggerAlertCounts triggerId
          triggerResolveCounts := fun triggerId ↦
            if p.triggerResolveCounts triggerId ≠ p.origTriggerResolveCounts triggerId then
              p.triggerResolveCounts triggerId
            else p.state.stats.triggerResolveCounts triggerId } } }

def resetTriggerCounts (p : SubscriptionProcessor) : SubscriptionProcessor :=
  { p with triggerAlertCounts := fun _ ↦ 0, triggerResolveCounts := fun _ ↦ 0 }.updateAlertRuleStats

/-- `update_incident_status`, for the active incident. Saving it clears the cache. -/
def updateIncidentStatus (p : SubscriptionProcessor) (incident : Incident)
    (status : IncidentStatus) : SubscriptionProcessor :=
  if incident.status = status then p
  else
    { p with
      state := { p.state with
        tables := p.state.tables.setStatus incident.id status
        activeIncidentCache := none }
      activeIncidentAttr := some (some { incident with status := status }) }

/-- The loop of `handle_incident_severity_update`, over the labels of the active triggers. -/
def severityLoop (severity : Option IncidentStatus) : List TriggerLabel → Option IncidentStatus
  | [] => severity
  | .critical :: _ => some .critical
  | .warning :: labels => severityLoop (some .warning) labels

def handleIncidentSeverityUpdate (p : SubscriptionProcessor) : SubscriptionProcessor :=
  let (incident, p) := p.activeIncident
  match incident with
  | none => p
  | some incident =>
    let activeIncidentTriggers := (p.state.tables.triggersOf incident.id).filter fun row ↦
      row.status = .active
    match severityLoop none (activeIncidentTriggers.map (·.alertRuleTrigger.label)) with
    | none => p
    | some severity => p.updateIncidentStatus incident severity

def ensureIncident (p : SubscriptionProcessor) (dateAdded : ℚ) : Incident × SubscriptionProcessor :=
  let (incident, p) := p.activeIncident
  match incident with
  | some incident => (incident, p)
  | none =>
    let incident : Incident := ⟨p.state.tables.nextIncidentId, .opened, dateAdded⟩
    (incident,
      { p with
        state := { p.state with
          tables := p.state.tables.createIncident dateAdded
          activeIncidentCache := none }
        activeIncidentAttr := some (some incident) })

def writeTrigger (p : SubscriptionProcessor) (isSaved : Bool) (incidentTrigger : IncidentTrigger) :
    SubscriptionProcessor :=
  { p with state := { p.state with
      tables :=
        if isSaved then p.state.tables.saveTrigger incidentTrigger
        else p.state.tables.createTrigger incidentTrigger
      turned := p.state.turned ++ [⟨incidentTrigger, p.state.evaluated⟩] } }

def activateTrigger (p : SubscriptionProcessor) (trigger : AlertRuleTrigger) (dateAdded : ℚ) :
    SubscriptionProcessor :=
  let (incident, p) := p.ensureIncident dateAdded
  let (incidentTriggers, p) := p.incidentTriggerMap
  let incidentTrigger : IncidentTrigger := ⟨incident.id, trigger, .active⟩
  let p := p.writeTrigger (getTrigger incidentTriggers trigger).isSome incidentTrigger
  let p := p.handleIncidentSeverityUpdate
  { p with incidentTriggersAttr := some (setTrigger incidentTriggers incidentTrigger) }

def triggerAlertThreshold (rule : AlertRule) (p : SubscriptionProcessor)
    (trigger : AlertRuleTrigger) (update : QuerySubscriptionUpdate) : SubscriptionProcessor :=
  let count := p.triggerAlertCounts trigger.id + 1
  let p := { p with triggerAlertCounts := Function.update p.triggerAlertCounts trigger.id count }
  if p.state.tables.rateLimited trigger (update.laterElsewhere trigger.id)
      (update.now trigger.id) then p
  else if rule.thresholdPeriod ≤ count then
    let p := p.activateTrigger trigger (update.dateAdded trigger.id)
    { p with triggerAlertCounts := Function.update p.triggerAlertCounts trigger.id 0 }
  else p

def checkTriggersResolved (incidentTriggers : List IncidentTrigger) : Bool :=
  incidentTriggers.all fun row ↦ row.status = .resolved

def resolveTrigger (p : SubscriptionProcessor) (trigger : AlertRuleTrigger) :
    SubscriptionProcessor :=
  let (incidentTriggers, p) := p.incidentTriggerMap
  match getTrigger incidentTriggers trigger with
  -- the trigger is active, so it is in the map
  | none => p
  | some incidentTrigger =>
    let incidentTrigger := { incidentTrigger with status := .resolved }
    let incidentTriggers := setTrigger incidentTriggers incidentTrigger
    let p := { p.writeTrigger true incidentTrigger with
      incidentTriggersAttr := some incidentTriggers }
    if checkTriggersResolved incidentTriggers then
      match p.activeIncident with
      | (none, p) => p
      | (some incident, p) =>
        { p.updateIncidentStatus incident .closed with
          activeIncidentAttr := some none
          incidentTriggersAttr := some [] }
    else p.handleIncidentSeverityUpdate

def triggerResolveThreshold (rule : AlertRule) (p : SubscriptionProcessor)
    (trigger : AlertRuleTrigger) : SubscriptionProcessor :=
  let count := p.triggerResolveCounts trigger.id + 1
  let p := { p with
    triggerResolveCounts := Function.update p.triggerResolveCounts trigger.id count }
  if rule.thresholdPeriod ≤ count then
    let p := p.resolveTrigger trigger
    { p with triggerResolveCounts := Function.update p.triggerResolveCounts trigger.id 0 }
  else p

/-- The alert threshold of a trigger in `process_update`. -/
def checkAlert (rule : AlertRule) (update : QuerySubscriptionUpdate) (aggregationValue : ℚ)
    (p : SubscriptionProcessor) (trigger : AlertRuleTrigger) : SubscriptionProcessor :=
  let reset (p : SubscriptionProcessor) : SubscriptionProcessor :=
    { p with triggerAlertCounts := Function.update p.triggerAlertCounts trigger.id 0 }
  if rule.thresholdType.alertOperator aggregationValue trigger.alertThreshold then
    match p.checkTriggerMatchesStatus trigger .active with
    | (false, p) => p.triggerAlertThreshold rule trigger update
    | (true, p) => reset p
  else reset p

/-- The resolve threshold of a trigger in `process_update`. -/
def checkResolve (rule : AlertRule) (aggregationValue : ℚ) (p : SubscriptionProcessor)
    (trigger : AlertRuleTrigger) : SubscriptionProcessor :=
  let reset (p : SubscriptionProcessor) : SubscriptionProcessor :=
    { p with triggerResolveCounts := Function.update p.triggerResolveCounts trigger.id 0 }
  if rule.thresholdType.resolveOperator aggregationValue
      (rule.calculateResolveThreshold trigger) then
    match p.activeIncident with
    | (none, p) => reset p
    | (some _, p) =>
      match p.checkTriggerMatchesStatus trigger .active with
      | (true, p) => p.triggerResolveThreshold rule trigger
      | (false, p) => reset p
  else reset p

/-- The loop of `process_update` over the triggers. -/
def checkTrigger (rule : AlertRule) (update : QuerySubscriptionUpdate) (aggregationValue : ℚ)
    (p : SubscriptionProcessor) (trigger : AlertRuleTrigger) : SubscriptionProcessor :=
  checkResolve rule aggregationValue (checkAlert rule update aggregationValue p trigger) trigger

end SubscriptionProcessor

open SubscriptionProcessor

def ignoresUpdate (rule : AlertRule) (update : QuerySubscriptionUpdate) : Bool :=
  !update.projectExists || (decide (rule.dataset = .events) && !update.hasIncidents) ||
    (decide (rule.dataset = .transactions) && !update.hasPerformanceView)

def AlertRule.sortedTriggers (rule : AlertRule) : List AlertRuleTrigger :=
  rule.triggers.insertionSort fun first second ↦ first.alertThreshold ≤ second.alertThreshold

/-- `process_update`, by a new processor. -/
def processUpdate (rule : AlertRule) (s : SubscriptionState) (update : QuerySubscriptionUpdate) :
    SubscriptionState :=
  let p := init s
  if ignoresUpdate rule update then s
  else if update.timestamp ≤ p.lastUpdate then s
  else
    let p := { p with lastUpdate := update.timestamp }
    match getAggregationValue rule update with
    | none => if rule.dataset = .metrics then p.resetTriggerCounts.state else p.state
    | some aggregationValue =>
      let p := { p with
        state := { p.state with evaluated := aggregationValue :: p.state.evaluated } }
      let p := rule.sortedTriggers.foldl (checkTrigger rule update aggregationValue) p
      p.updateAlertRuleStats.state

def subscription (rule : AlertRule) : Machine SubscriptionState QuerySubscriptionUpdate where
  init :=
    { tables := ⟨[], [], 1⟩
      activeIncidentCache := none
      stats := ⟨0, fun _ ↦ 0, fun _ ↦ 0⟩
      evaluated := []
      turned := [] }
  step := processUpdate rule

end Sentry.Incidents
