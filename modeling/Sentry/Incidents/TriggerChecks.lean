import Sentry.Incidents.AlertRuns
import Sentry.Incidents.RateLimit

/-!
# The checks of the triggers, exactly

What the loop of `process_update` does with each trigger of a rule follows from the state before the
update (`AlertFires`, `ResolveFires`, `nextAlertCount`, `nextResolveCount`): the check of a trigger
leaves the other triggers as they were (`SameFor`), so the checks before it do not change what it
does (`foldl_checkTrigger_checks`).
-/

namespace Sentry.Incidents

open AlertTables Library List Function

/-! ### Dates of incidents -/

namespace AlertTables

def dateOf (tables : AlertTables) (incidentId : ℕ) : Option ℚ :=
  (tables.incidents.find? fun incident ↦ incident.id = incidentId).map (·.dateAdded)

/-- The dates of the incidents there are stay. -/
structure DatesKept (tables tables' : AlertTables) : Prop where
  le : tables.nextIncidentId ≤ tables'.nextIncidentId
  dateOf_eq : ∀ id < tables.nextIncidentId, tables'.dateOf id = tables.dateOf id

theorem DatesKept.refl (tables : AlertTables) : DatesKept tables tables :=
  ⟨le_rfl, fun _ _ ↦ rfl⟩

theorem DatesKept.trans {tables tables' tables'' : AlertTables} (h : DatesKept tables tables')
    (h' : DatesKept tables' tables'') : DatesKept tables tables'' where
  le := h.le.trans h'.le
  dateOf_eq id hid := (h'.dateOf_eq id (hid.trans_le h.le)).trans (h.dateOf_eq id hid)

theorem datesKept_createIncident (tables : AlertTables) (dateAdded : ℚ) :
    DatesKept tables (tables.createIncident dateAdded) where
  le := Nat.le_succ _
  dateOf_eq id hid := by
    rw [dateOf, createIncident, find?_append,
      find?_cons_of_neg (by simpa using hid.ne'), find?_nil, Option.or_none, dateOf]

theorem datesKept_setStatus (tables : AlertTables) (incidentId : ℕ) (status : IncidentStatus) :
    DatesKept tables (tables.setStatus incidentId status) where
  le := le_rfl
  dateOf_eq id _ := by
    have hcomp : ((fun incident : Incident ↦ decide (incident.id = id)) ∘ fun incident ↦
        if incident.id = incidentId then { incident with status := status } else incident) =
          fun incident ↦ decide (incident.id = id) := by
      ext incident
      rw [comp_apply]
      split_ifs <;> rfl
    rw [dateOf, setStatus, find?_map, hcomp, Option.map_map, dateOf]
    congr 1
    ext incident
    rw [comp_apply]
    split_ifs <;> rfl

def lastDate (tables : AlertTables) (trigger : AlertRuleTrigger) : Option ℚ :=
  ((tables.incidentTriggers.filter fun row ↦ row.alertRuleTrigger.id = trigger.id).argmax
    (·.incidentId)).bind fun row ↦ tables.dateOf row.incidentId

theorem rateLimited_eq_lastDate (tables : AlertTables) (trigger : AlertRuleTrigger)
    (laterElsewhere : Bool) (now : ℚ) :
    tables.rateLimited trigger laterElsewhere now =
      (tables.lastDate trigger).any fun dateAdded ↦ !laterElsewhere &&
        decide (((⌊now - dateAdded⌋ % 86400 : ℤ) : ℚ) / 60 ≤ 10) := by
  have hlast : tables.lastDate trigger = (tables.lastIncident trigger).map (·.dateAdded) := by
    rw [lastIncident, Option.map_bind]
    rfl
  rw [rateLimited_eq, hlast, Option.any_map]

theorem filter_upsertRow_of_ne (rows : List IncidentTrigger) {incidentTrigger : IncidentTrigger}
    {id : ℕ} (hne : id ≠ incidentTrigger.alertRuleTrigger.id) :
    ((upsertRow rows incidentTrigger).filter fun row ↦ row.alertRuleTrigger.id = id) =
      rows.filter fun row ↦ row.alertRuleTrigger.id = id := by
  rw [upsertRow]
  split_ifs
  · rw [filter_map]
    have hcomp : ((fun row : IncidentTrigger ↦ decide (row.alertRuleTrigger.id = id)) ∘ fun row ↦
        if row.incidentId = incidentTrigger.incidentId ∧
          row.alertRuleTrigger.id = incidentTrigger.alertRuleTrigger.id then
          { row with status := incidentTrigger.status }
        else row) = fun row ↦ decide (row.alertRuleTrigger.id = id) := by
      ext row
      rw [comp_apply]
      split_ifs <;> rfl
    rw [hcomp]
    refine (map_congr_left fun row hrow ↦ ?_).trans (map_id _)
    have hid : row.alertRuleTrigger.id = id := of_decide_eq_true (mem_filter.mp hrow).2
    exact if_neg fun h ↦ hne (hid.symm.trans h.2)
  · rw [filter_append, filter_cons_of_neg (by simpa using hne.symm), filter_nil, append_nil]

theorem rateLimited_of_upsertRow {tables tables' : AlertTables} (h : tables.Consistent)
    {incidentTrigger : IncidentTrigger}
    (hrows : tables'.incidentTriggers = upsertRow tables.incidentTriggers incidentTrigger)
    (hdates : DatesKept tables tables') {trigger : AlertRuleTrigger}
    (hne : trigger.id ≠ incidentTrigger.alertRuleTrigger.id) (laterElsewhere : Bool) (now : ℚ) :
    tables'.rateLimited trigger laterElsewhere now =
      tables.rateLimited trigger laterElsewhere now := by
  have hlast : tables'.lastDate trigger = tables.lastDate trigger := by
    rw [lastDate, hrows, filter_upsertRow_of_ne _ hne, lastDate]
    refine Option.bind_congr fun row hrow ↦ ?_
    exact hdates.dateOf_eq _
      (h.incidentId_lt row (mem_filter.mp (argmax_mem hrow)).1)
  rw [rateLimited_eq_lastDate, hlast, rateLimited_eq_lastDate]

end AlertTables

namespace SubscriptionProcessor

variable {rule : AlertRule} {update : QuerySubscriptionUpdate} {value : ℚ}
  {p q r : SubscriptionProcessor} {trigger : AlertRuleTrigger}

/-! ### Turning a trigger -/

/-- The copies of the processor are what the database has. -/
structure Coherent (p : SubscriptionProcessor) : Prop where
  wellFormed : p.state.tables.WellFormed
  incidentCoherent : p.IncidentCoherent
  triggersCoherent : p.TriggersCoherent

theorem Coherent.of_reads (h : p.Coherent) (hreads : Reads p q) : q.Coherent := by
  refine ⟨?_, hreads.incidentCoherent, hreads.triggersCoherent⟩
  rw [hreads.tables_eq]
  exact h.wellFormed

theorem Coherent.of_turns {incidentTrigger : IncidentTrigger} (h : Turns p incidentTrigger q) :
    q.Coherent :=
  ⟨h.wellFormed, h.incidentCoherent, h.triggersCoherent⟩

theorem Coherent.isActive_eq (h : p.Coherent) (trigger : AlertRuleTrigger) :
    p.isActive trigger =
      (getTrigger p.state.tables.activeTriggers trigger).any fun row ↦ row.status = .active :=
  (checkTriggerMatchesStatus_spec h.incidentCoherent h.triggersCoherent trigger .active).1

theorem Coherent.isActive_congr (h : p.Coherent) (h' : q.Coherent)
    (htables : q.state.tables = p.state.tables) (trigger : AlertRuleTrigger) :
    q.isActive trigger = p.isActive trigger := by
  rw [h.isActive_eq, h'.isActive_eq, htables]

theorem datesKept_handleIncidentSeverityUpdate (p : SubscriptionProcessor) :
    DatesKept p.state.tables p.handleIncidentSeverityUpdate.state.tables := by
  have htables := tables_activeIncident p
  rw [handleIncidentSeverityUpdate]
  generalize p.activeIncident = read at htables
  obtain ⟨found, q⟩ := read
  rw [← htables]
  cases found with
  | none => exact DatesKept.refl _
  | some incident =>
    dsimp only
    cases severityLoop none _ with
    | none => exact DatesKept.refl _
    | some severity =>
      show DatesKept _ (q.updateIncidentStatus incident severity).state.tables
      rw [updateIncidentStatus]
      split_ifs
      · exact DatesKept.refl _
      · exact datesKept_setStatus _ _ _

theorem incidentTriggersAttr_activeIncident (p : SubscriptionProcessor) :
    p.activeIncident.2.incidentTriggersAttr = p.incidentTriggersAttr := by
  rw [activeIncident]
  cases p.activeIncidentAttr with
  | some | none => rfl

theorem incidentTriggersAttr_handleIncidentSeverityUpdate (p : SubscriptionProcessor) :
    p.handleIncidentSeverityUpdate.incidentTriggersAttr = p.incidentTriggersAttr := by
  have hattr := incidentTriggersAttr_activeIncident p
  rw [handleIncidentSeverityUpdate]
  generalize p.activeIncident = read at hattr
  obtain ⟨found, q⟩ := read
  rw [← hattr]
  cases found with
  | none => rfl
  | some incident =>
    dsimp only
    cases severityLoop none _ with
    | none => rfl
    | some severity =>
      show (q.updateIncidentStatus incident severity).incidentTriggersAttr = _
      rw [updateIncidentStatus]
      split_ifs <;> rfl

/-- A trigger is turned, and no other one. -/
structure TurnsOnly (p : SubscriptionProcessor) (trigger : AlertRuleTrigger)
    (status : TriggerStatus) (q : SubscriptionProcessor) : Prop where
  turns : ∃ incidentTrigger, Turns p incidentTrigger q ∧
    incidentTrigger.alertRuleTrigger.id = trigger.id ∧ incidentTrigger.status = status
  isActive_eq : q.isActive trigger = decide (status = .active)
  isActive_of_ne : ∀ other : AlertRuleTrigger, other.id ≠ trigger.id →
    q.isActive other = p.isActive other
  datesKept : DatesKept p.state.tables q.state.tables

theorem ensureIncident_tables (h : p.Coherent) (dateAdded : ℚ) :
    (p.ensureIncident dateAdded).2.state.tables.activeTriggers = p.state.tables.activeTriggers ∧
      DatesKept p.state.tables (p.ensureIncident dateAdded).2.state.tables := by
  obtain ⟨hincident, hwrites⟩ := activeIncident_spec h.incidentCoherent
  have hensures := ensureIncident_spec h.wellFormed h.incidentCoherent h.triggersCoherent dateAdded
  rw [ensureIncident] at hensures ⊢
  generalize p.activeIncident = read at hincident hwrites hensures
  obtain ⟨found, q⟩ := read
  cases found with
  | some incident =>
    rw [hwrites.tables_eq]
    exact ⟨rfl, DatesKept.refl _⟩
  | none =>
    have htables := hwrites.tables_eq
    constructor
    · have hquery := hensures.query
      dsimp only at hquery ⊢
      rw [activeTriggers_of_eq_some hquery, activeTriggers_of_eq_none hincident.symm,
        triggersOf_createIncident, htables]
      exact triggersOf_nextIncidentId h.wellFormed.consistent
    · rw [← htables]
      exact datesKept_createIncident _ dateAdded

theorem datesKept_writeTrigger (p : SubscriptionProcessor) (isSaved : Bool)
    (incidentTrigger : IncidentTrigger) :
    DatesKept p.state.tables (p.writeTrigger isSaved incidentTrigger).state.tables := by
  cases isSaved with
  | true | false => exact ⟨le_rfl, fun _ _ ↦ rfl⟩

theorem activateTrigger_turnsOnly (h : p.Coherent) (trigger : AlertRuleTrigger) (dateAdded : ℚ) :
    TurnsOnly p trigger .active (p.activateTrigger trigger dateAdded) := by
  obtain ⟨incidentId, hturns⟩ := activateTrigger_spec h.wellFormed h.incidentCoherent
    h.triggersCoherent trigger dateAdded
  obtain ⟨hactive, hensuredDates⟩ := ensureIncident_tables h dateAdded
  have hensures := ensureIncident_spec h.wellFormed h.incidentCoherent h.triggersCoherent dateAdded
  have hattr := incidentTriggersAttr_activateTrigger p trigger dateAdded
  obtain ⟨hrows, hreads⟩ := incidentTriggerMap_spec hensures.incidentCoherent
    hensures.triggersCoherent
  rw [hrows, hactive] at hattr
  refine ⟨⟨_, hturns, rfl, rfl⟩, isActive_activateTrigger p trigger dateAdded, ?_, ?_⟩
  · intro other hother
    rw [isActive_of_attr _ hattr, getTrigger_setTrigger_of_ne _ hother, h.isActive_eq]
  · refine hensuredDates.trans ?_
    rw [← hreads.tables_eq]
    exact (datesKept_writeTrigger _ _ _).trans (datesKept_handleIncidentSeverityUpdate _)

theorem resolveTrigger_copy {incidentTrigger : IncidentTrigger}
    (hentry : getTrigger p.incidentTriggerMap.1 trigger = some incidentTrigger) :
    DatesKept p.state.tables (p.resolveTrigger trigger).state.tables ∧
      ∃ rows, (p.resolveTrigger trigger).incidentTriggersAttr = some rows ∧
        (rows = setTrigger p.incidentTriggerMap.1 { incidentTrigger with status := .resolved } ∨
          rows = [] ∧ checkTriggersResolved (setTrigger p.incidentTriggerMap.1
            { incidentTrigger with status := .resolved })) := by
  have htables := tables_incidentTriggerMap p
  rw [resolveTrigger]
  generalize p.incidentTriggerMap = read at hentry htables
  obtain ⟨rows, q⟩ := read
  dsimp only at hentry htables ⊢
  rw [hentry, ← htables]
  dsimp only
  have hwritten := datesKept_writeTrigger q true { incidentTrigger with status := .resolved }
  generalize q.writeTrigger true { incidentTrigger with status := .resolved } = r at hwritten
  generalize setTrigger rows { incidentTrigger with status := .resolved } = rows'
  generalize hcopy : { r with incidentTriggersAttr := some rows' } = s
  have hattr : s.incidentTriggersAttr = some rows' := by rw [← hcopy]
  replace hwritten : DatesKept q.state.tables s.state.tables := by rwa [← hcopy]
  split_ifs with hresolved
  · rw [← tables_activeIncident s] at hwritten
    rw [← incidentTriggersAttr_activeIncident] at hattr
    generalize s.activeIncident = read at hwritten hattr
    obtain ⟨found, t⟩ := read
    cases found with
    | none => exact ⟨hwritten, _, hattr, Or.inl rfl⟩
    | some incident =>
      refine ⟨?_, [], rfl, Or.inr ⟨rfl, hresolved⟩⟩
      show DatesKept _ (t.updateIncidentStatus incident .closed).state.tables
      rw [updateIncidentStatus]
      split_ifs
      · exact hwritten
      · exact hwritten.trans (datesKept_setStatus _ _ _)
  · refine ⟨hwritten.trans (datesKept_handleIncidentSeverityUpdate _), rows', ?_, Or.inl rfl⟩
    rw [incidentTriggersAttr_handleIncidentSeverityUpdate, hattr]

theorem getTrigger_any_of_checkTriggersResolved {rows : List IncidentTrigger}
    (hresolved : checkTriggersResolved rows) (trigger : AlertRuleTrigger) :
    (getTrigger rows trigger).any (fun row ↦ row.status = .active) = false := by
  cases hrow : getTrigger rows trigger with
  | none => rfl
  | some row =>
    have hstatus := List.all_eq_true.mp hresolved row (mem_of_find?_eq_some hrow)
    rw [Option.any_some, of_decide_eq_true hstatus]
    rfl

theorem resolveTrigger_turnsOnly (h : p.Coherent) {trigger : AlertRuleTrigger}
    (hactive : p.isActive trigger = true) :
    TurnsOnly p trigger .resolved (p.resolveTrigger trigger) := by
  obtain ⟨hmap, -⟩ := incidentTriggerMap_spec h.incidentCoherent h.triggersCoherent
  rw [h.isActive_eq] at hactive
  obtain ⟨incidentTrigger, hentry⟩ := Option.isSome_iff_exists.mp (Option.isSome_of_any hactive)
  have hid := id_eq_of_getTrigger hentry
  have hturns := resolveTrigger_spec h.wellFormed h.incidentCoherent h.triggersCoherent hentry
  rw [← hmap] at hentry
  obtain ⟨hdates, rows, hattr, hrows⟩ := resolveTrigger_copy hentry
  rw [hmap] at hrows
  refine ⟨⟨_, hturns, hid, rfl⟩, ?_, ?_, hdates⟩
  · rw [isActive_of_attr _ hattr]
    obtain ⟨row, hrow, hstatus⟩ := getTrigger_setTrigger_self p.state.tables.activeTriggers
      { incidentTrigger with status := .resolved }
    have hsame : getTrigger rows trigger = getTrigger rows incidentTrigger.alertRuleTrigger := by
      rw [getTrigger, getTrigger, hid]
    rcases hrows with rfl | ⟨rfl, -⟩
    · dsimp only at hrow hstatus
      rw [hsame, hrow, Option.any_some, hstatus]
    · rfl
  · intro other hother
    rw [isActive_of_attr _ hattr, h.isActive_eq]
    have hother' : getTrigger (setTrigger p.state.tables.activeTriggers
        { incidentTrigger with status := .resolved }) other =
          getTrigger p.state.tables.activeTriggers other :=
      getTrigger_setTrigger_of_ne _ (by rw [hid]; exact hother)
    rcases hrows with rfl | ⟨rfl, hresolved⟩
    · rw [hother']
    · rw [← hother', getTrigger_any_of_checkTriggersResolved hresolved]
      rfl

end SubscriptionProcessor

/-! ### What an update does with a trigger -/

instance (rule : AlertRule) (trigger : AlertRuleTrigger) (value : ℚ) :
    Decidable (rule.Alerts trigger value) :=
  inferInstanceAs (Decidable (_ = true))

instance (rule : AlertRule) (trigger : AlertRuleTrigger) (value : ℚ) :
    Decidable (rule.Resolves trigger value) :=
  inferInstanceAs (Decidable (_ = true))

/-- What is known of a trigger before an update: whether it is active, whether it is rate limited
now, and its counts. -/
structure TriggerView where
  isActive : Bool
  isLimited : Bool
  alertCount : ℕ
  resolveCount : ℕ

namespace TriggerView

variable (view : TriggerView) (rule : AlertRule) (trigger : AlertRuleTrigger) (value : ℚ)

def AlertDue : Prop :=
  rule.Alerts trigger value ∧ view.isActive = false

def AlertFires : Prop :=
  view.AlertDue rule trigger value ∧ view.isLimited = false ∧
    rule.thresholdPeriod ≤ view.alertCount + 1

def ResolveDue : Prop :=
  rule.Resolves trigger value ∧ (view.isActive = true ∨ view.AlertFires rule trigger value)

def ResolveFires : Prop :=
  view.ResolveDue rule trigger value ∧ rule.thresholdPeriod ≤ view.resolveCount + 1

instance : Decidable (view.AlertDue rule trigger value) :=
  inferInstanceAs (Decidable (_ ∧ _))

instance : Decidable (view.AlertFires rule trigger value) :=
  inferInstanceAs (Decidable (_ ∧ _ ∧ _))

instance : Decidable (view.ResolveDue rule trigger value) :=
  inferInstanceAs (Decidable (_ ∧ (_ ∨ _)))

instance : Decidable (view.ResolveFires rule trigger value) :=
  inferInstanceAs (Decidable (_ ∧ _))

def nextAlertCount : ℕ :=
  if view.AlertDue rule trigger value ∧ ¬ view.AlertFires rule trigger value then
    view.alertCount + 1
  else 0

def nextResolveCount : ℕ :=
  if view.ResolveDue rule trigger value ∧ ¬ view.ResolveFires rule trigger value then
    view.resolveCount + 1
  else 0

def statuses : List TriggerStatus :=
  (if view.AlertFires rule trigger value then [.active] else []) ++
    if view.ResolveFires rule trigger value then [.resolved] else []

end TriggerView

def SubscriptionState.written (s : SubscriptionState) : List (ℕ × TriggerStatus) :=
  s.turned.map fun turned ↦
    (turned.incidentTrigger.alertRuleTrigger.id, turned.incidentTrigger.status)

namespace SubscriptionProcessor

variable {rule : AlertRule} {update : QuerySubscriptionUpdate} {value : ℚ}
  {p q r : SubscriptionProcessor} {trigger : AlertRuleTrigger} {statuses : List TriggerStatus}
  {alertCount resolveCount : ℕ}

def view (p : SubscriptionProcessor) (update : QuerySubscriptionUpdate)
    (trigger : AlertRuleTrigger) : TriggerView where
  isActive := p.isActive trigger
  isLimited := p.state.tables.rateLimited trigger (update.laterElsewhere trigger.id)
    (update.now trigger.id)
  alertCount := p.triggerAlertCounts trigger.id
  resolveCount := p.triggerResolveCounts trigger.id

/-- A trigger is checked: the statuses that are written and its counts. Others are as before. -/
structure Checks (trigger : AlertRuleTrigger) (p : SubscriptionProcessor)
    (statuses : List TriggerStatus) (alertCount resolveCount : ℕ) (q : SubscriptionProcessor) :
    Prop where
  coherent : q.Coherent
  keepsStats : KeepsStats p q
  written_eq : q.state.written = p.state.written ++ statuses.map fun status ↦ (trigger.id, status)
  tables_eq : statuses = [] → q.state.tables = p.state.tables
  alertCount_eq : q.triggerAlertCounts trigger.id = alertCount
  resolveCount_eq : q.triggerResolveCounts trigger.id = resolveCount
  view_of_ne : ∀ update, ∀ other : AlertRuleTrigger, other.id ≠ trigger.id →
    q.view update other = p.view update other

theorem Checks.trans {alertCount' resolveCount' : ℕ} {statuses' : List TriggerStatus}
    (h : Checks trigger p statuses alertCount resolveCount q)
    (h' : Checks trigger q statuses' alertCount' resolveCount' r) :
    Checks trigger p (statuses ++ statuses') alertCount' resolveCount' r where
  coherent := h'.coherent
  keepsStats := h.keepsStats.trans h'.keepsStats
  written_eq := by rw [h'.written_eq, h.written_eq, map_append, append_assoc]
  tables_eq hnil := by
    obtain ⟨hfirst, hsecond⟩ := append_eq_nil_iff.mp hnil
    rw [h'.tables_eq hsecond, h.tables_eq hfirst]
  alertCount_eq := h'.alertCount_eq
  resolveCount_eq := h'.resolveCount_eq
  view_of_ne update other hother :=
    (h'.view_of_ne update other hother).trans (h.view_of_ne update other hother)

theorem checks_of_reads (h : p.Coherent) (hreads : Reads p q) :
    Checks trigger p [] (p.triggerAlertCounts trigger.id)
      (p.triggerResolveCounts trigger.id) q := by
  have hcoherent := h.of_reads hreads
  have hcounts := hreads.keepsCounts
  refine ⟨hcoherent, hcounts.toKeepsStats, ?_, fun _ ↦ hreads.tables_eq, ?_, ?_, ?_⟩
  · rw [SubscriptionState.written, hreads.turned_eq, map_nil, append_nil]
    rfl
  · rw [hcounts.triggerAlertCounts]
  · rw [hcounts.triggerResolveCounts]
  · intro update other _
    rw [view, h.isActive_congr hcoherent hreads.tables_eq, hreads.tables_eq,
      hcounts.triggerAlertCounts, hcounts.triggerResolveCounts, view]

theorem checks_of_turnsOnly (h : p.Coherent) {status : TriggerStatus}
    (hturned : TurnsOnly p trigger status q) :
    Checks trigger p [status] (p.triggerAlertCounts trigger.id)
      (p.triggerResolveCounts trigger.id) q := by
  obtain ⟨incidentTrigger, hturns, hid, hstatus⟩ := hturned.turns
  have hcounts := hturns.keepsCounts
  refine ⟨Coherent.of_turns hturns, hcounts.toKeepsStats, ?_, ?_, ?_, ?_, ?_⟩
  · rw [SubscriptionState.written, hturns.turned_eq, map_append, ← hid, ← hstatus]
    rfl
  · intro hnil
    nomatch hnil
  · rw [hcounts.triggerAlertCounts]
  · rw [hcounts.triggerResolveCounts]
  · intro update other hother
    rw [view, hturned.isActive_of_ne other hother, hcounts.triggerAlertCounts,
      hcounts.triggerResolveCounts, rateLimited_of_upsertRow h.wellFormed.consistent
        hturns.incidentTriggers_eq hturned.datesKept (by rw [hid]; exact hother), view]

/-! ### Counts -/

theorem Coherent.setAlertCounts (h : p.Coherent) (counts : ℕ → ℕ) :
    Coherent { p with triggerAlertCounts := counts } :=
  ⟨h.wellFormed, ⟨h.incidentCoherent.cache, h.incidentCoherent.attr⟩, h.triggersCoherent⟩

theorem Coherent.setResolveCounts (h : p.Coherent) (counts : ℕ → ℕ) :
    Coherent { p with triggerResolveCounts := counts } :=
  ⟨h.wellFormed, ⟨h.incidentCoherent.cache, h.incidentCoherent.attr⟩, h.triggersCoherent⟩

theorem Checks.setAlertCount (h : Checks trigger p statuses alertCount resolveCount q) (count : ℕ) :
    Checks trigger p statuses count resolveCount
      { q with triggerAlertCounts := Function.update q.triggerAlertCounts trigger.id count } := by
  have hcoherent := h.coherent.setAlertCounts
    (Function.update q.triggerAlertCounts trigger.id count)
  refine ⟨hcoherent, { h.keepsStats with }, h.written_eq, h.tables_eq, update_self _ _ _,
    h.resolveCount_eq, ?_⟩
  intro update other hother
  rw [← h.view_of_ne update other hother, view, h.coherent.isActive_congr hcoherent rfl, view]
  dsimp only
  rw [update_of_ne hother]

theorem Checks.setResolveCount (h : Checks trigger p statuses alertCount resolveCount q)
    (count : ℕ) :
    Checks trigger p statuses alertCount count
      { q with
        triggerResolveCounts := Function.update q.triggerResolveCounts trigger.id count } := by
  have hcoherent := h.coherent.setResolveCounts
    (Function.update q.triggerResolveCounts trigger.id count)
  refine ⟨hcoherent, { h.keepsStats with }, h.written_eq, h.tables_eq, h.alertCount_eq,
    update_self _ _ _, ?_⟩
  intro update other hother
  rw [← h.view_of_ne update other hother, view, h.coherent.isActive_congr hcoherent rfl, view]
  dsimp only
  rw [update_of_ne hother]

/-! ### The checks -/

/-- The alert threshold of a trigger is checked. -/
structure ChecksAlert (trigger : AlertRuleTrigger) (p : SubscriptionProcessor) (fires : Bool)
    (alertCount : ℕ) (q : SubscriptionProcessor) : Prop where
  checks : Checks trigger p (if fires then [.active] else []) alertCount
    (p.triggerResolveCounts trigger.id) q
  isActive_eq : q.isActive trigger = (p.isActive trigger || fires)

theorem checksAlert_setAlertCount (h : p.Coherent) (hreads : Reads p q) (count : ℕ) :
    ChecksAlert trigger p false count
      { q with triggerAlertCounts := Function.update q.triggerAlertCounts trigger.id count } := by
  have hread : Checks trigger p [] _ _ q := checks_of_reads h hreads
  have hchecks := hread.setAlertCount count
  refine ⟨hchecks, ?_⟩
  rw [h.isActive_congr hchecks.coherent hreads.tables_eq, Bool.or_false]

theorem checksAlert_reset (h : p.Coherent)
    (hdue : ¬ (p.view update trigger).AlertDue rule trigger value) (hreads : Reads p q) :
    ChecksAlert trigger p (decide ((p.view update trigger).AlertFires rule trigger value))
      ((p.view update trigger).nextAlertCount rule trigger value)
      { q with triggerAlertCounts := Function.update q.triggerAlertCounts trigger.id 0 } := by
  rw [decide_eq_false fun hfires ↦ hdue hfires.1, TriggerView.nextAlertCount,
    if_neg fun hcount ↦ hdue hcount.1]
  exact checksAlert_setAlertCount h hreads 0

/-- Assumes: the value breaches the threshold of a trigger that is not active. -/
theorem triggerAlertThreshold_checks (h : p.Coherent) (hreads : Reads p q)
    (hdue : (p.view update trigger).AlertDue rule trigger value) :
    ChecksAlert trigger p (decide ((p.view update trigger).AlertFires rule trigger value))
      ((p.view update trigger).nextAlertCount rule trigger value)
      (q.triggerAlertThreshold rule trigger update) := by
  have hcounted : ChecksAlert trigger p false _ _ :=
    checksAlert_setAlertCount h hreads (q.triggerAlertCounts trigger.id + 1)
  have hcount : q.triggerAlertCounts trigger.id = (p.view update trigger).alertCount :=
    congrFun hreads.keepsCounts.triggerAlertCounts trigger.id
  have hlimitedEq : q.state.tables.rateLimited trigger (update.laterElsewhere trigger.id)
      (update.now trigger.id) = (p.view update trigger).isLimited := by
    rw [hreads.tables_eq]
    rfl
  rw [triggerAlertThreshold]
  rw [hlimitedEq]
  rw [hcount] at hcounted ⊢
  split_ifs with hlimited hperiod
  · have hfires : ¬ (p.view update trigger).AlertFires rule trigger value := fun hfires ↦
      Bool.false_ne_true (hfires.2.1.symm.trans hlimited)
    rw [decide_eq_false hfires, TriggerView.nextAlertCount, if_pos ⟨hdue, hfires⟩]
    exact hcounted
  · have hfires : (p.view update trigger).AlertFires rule trigger value :=
      ⟨hdue, Bool.eq_false_of_not_eq_true hlimited, hperiod⟩
    have hcoherent := hcounted.checks.coherent
    have hturned := activateTrigger_turnsOnly hcoherent trigger (update.dateAdded trigger.id)
    have hchecks := hcounted.checks.trans (checks_of_turnsOnly hcoherent hturned)
    rw [hcounted.checks.resolveCount_eq] at hchecks
    have hreset := hchecks.setAlertCount 0
    rw [decide_eq_true hfires, TriggerView.nextAlertCount, if_neg fun h ↦ h.2 hfires]
    refine ⟨hreset, ?_⟩
    rw [hchecks.coherent.isActive_congr hreset.coherent rfl, hturned.isActive_eq, Bool.or_true]
    rfl
  · have hfires : ¬ (p.view update trigger).AlertFires rule trigger value := fun hfires ↦
      hperiod hfires.2.2
    rw [decide_eq_false hfires, TriggerView.nextAlertCount, if_pos ⟨hdue, hfires⟩]
    exact hcounted

theorem checkAlert_checks (h : p.Coherent) (rule : AlertRule) (update : QuerySubscriptionUpdate)
    (value : ℚ) (trigger : AlertRuleTrigger) :
    ChecksAlert trigger p (decide ((p.view update trigger).AlertFires rule trigger value))
      ((p.view update trigger).nextAlertCount rule trigger value)
      (checkAlert rule update value p trigger) := by
  obtain ⟨-, hreads⟩ := incidentTriggerMap_spec h.incidentCoherent h.triggersCoherent
  rw [checkAlert]
  split_ifs with hvalue
  · have hmatches : p.checkTriggerMatchesStatus trigger .active =
        (p.isActive trigger, p.incidentTriggerMap.2) := rfl
    rw [hmatches]
    cases hactive : p.isActive trigger with
    | false => exact triggerAlertThreshold_checks h hreads ⟨hvalue, hactive⟩
    | true =>
      exact checksAlert_reset h
        (fun hdue ↦ Bool.false_ne_true (hdue.2.symm.trans hactive)) hreads
  · exact checksAlert_reset h (fun hdue ↦ hvalue hdue.1)
      ⟨rfl, rfl, h.incidentCoherent, h.triggersCoherent, KeepsCounts.refl p⟩

theorem Reads.trans (h : Reads p q) (h' : Reads q r) : Reads p r where
  tables_eq := h'.tables_eq.trans h.tables_eq
  turned_eq := h'.turned_eq.trans h.turned_eq
  incidentCoherent := h'.incidentCoherent
  triggersCoherent := h'.triggersCoherent
  keepsCounts := h.keepsCounts.trans h'.keepsCounts

/-- Assumes: the trigger is active. -/
theorem triggerResolveThreshold_checks (h : p.Coherent) (hreads : Reads p q)
    (hactive : p.isActive trigger = true) :
    Checks trigger p
      (if rule.thresholdPeriod ≤ p.triggerResolveCounts trigger.id + 1 then [.resolved] else [])
      (p.triggerAlertCounts trigger.id)
      (if rule.thresholdPeriod ≤ p.triggerResolveCounts trigger.id + 1 then 0
        else p.triggerResolveCounts trigger.id + 1)
      (q.triggerResolveThreshold rule trigger) := by
  have hread : Checks trigger p [] _ _ q := checks_of_reads h hreads
  have hcounted := hread.setResolveCount (q.triggerResolveCounts trigger.id + 1)
  have hcount : q.triggerResolveCounts trigger.id = p.triggerResolveCounts trigger.id :=
    congrFun hreads.keepsCounts.triggerResolveCounts trigger.id
  rw [triggerResolveThreshold]
  rw [hcount] at hcounted ⊢
  split_ifs with hperiod
  · have hcoherent := hcounted.coherent
    have hstill := (h.isActive_congr hcoherent hreads.tables_eq trigger).trans hactive
    have hturned := resolveTrigger_turnsOnly hcoherent hstill
    have hchecks := hcounted.trans (checks_of_turnsOnly hcoherent hturned)
    rw [hcounted.alertCount_eq] at hchecks
    exact hchecks.setResolveCount 0
  · exact hcounted

def ChecksResolve (rule : AlertRule) (value : ℚ) (trigger : AlertRuleTrigger)
    (p q : SubscriptionProcessor) : Prop :=
  Checks trigger p
    (if (rule.Resolves trigger value ∧ p.isActive trigger = true) ∧
      rule.thresholdPeriod ≤ p.triggerResolveCounts trigger.id + 1 then [.resolved] else [])
    (p.triggerAlertCounts trigger.id)
    (if (rule.Resolves trigger value ∧ p.isActive trigger = true) ∧
      ¬ rule.thresholdPeriod ≤ p.triggerResolveCounts trigger.id + 1 then
        p.triggerResolveCounts trigger.id + 1
      else 0) q

theorem checksResolve_reset (h : p.Coherent)
    (hdue : ¬ (rule.Resolves trigger value ∧ p.isActive trigger = true)) (hreads : Reads p q) :
    ChecksResolve rule value trigger p
      { q with triggerResolveCounts := Function.update q.triggerResolveCounts trigger.id 0 } := by
  rw [ChecksResolve, if_neg fun hfires ↦ hdue hfires.1, if_neg fun hcount ↦ hdue hcount.1]
  exact (checks_of_reads h hreads).setResolveCount 0

theorem checkResolve_checks (h : p.Coherent) (rule : AlertRule) (value : ℚ)
    (trigger : AlertRuleTrigger) :
    ChecksResolve rule value trigger p (checkResolve rule value p trigger) := by
  obtain ⟨hincident, hwrites⟩ := activeIncident_spec h.incidentCoherent
  have hreads := hwrites.reads h.triggersCoherent
  rw [checkResolve]
  by_cases hvalue : rule.thresholdType.resolveOperator value
      (rule.calculateResolveThreshold trigger) = true
  · rw [if_pos hvalue]
    generalize p.activeIncident = read at hincident hreads
    obtain ⟨found, q⟩ := read
    cases found with
    | none =>
      refine checksResolve_reset h (fun hdue ↦ ?_) hreads
      have hactive := hdue.2
      rw [h.isActive_eq, activeTriggers_of_eq_none hincident.symm] at hactive
      exact absurd hactive Bool.false_ne_true
    | some incident =>
      have hcoherent := h.of_reads hreads
      obtain ⟨-, hreadMap⟩ := incidentTriggerMap_spec hcoherent.incidentCoherent
        hcoherent.triggersCoherent
      have hreads' := hreads.trans hreadMap
      have hstill := h.isActive_congr hcoherent hreads.tables_eq trigger
      by_cases hactive : p.isActive trigger = true
      · have hmatches : q.checkTriggerMatchesStatus trigger .active =
            (true, q.incidentTriggerMap.2) := Prod.ext (hstill.trans hactive) rfl
        have hdue : rule.Resolves trigger value ∧ p.isActive trigger = true := ⟨hvalue, hactive⟩
        have hchecks : Checks trigger p _ _ _
            (q.incidentTriggerMap.2.triggerResolveThreshold rule trigger) :=
          triggerResolveThreshold_checks h hreads' hactive
        dsimp only
        rw [hmatches]
        simpa only [ChecksResolve, and_iff_right hdue, ite_not] using hchecks
      · have hmatches : q.checkTriggerMatchesStatus trigger .active =
            (false, q.incidentTriggerMap.2) :=
          Prod.ext (hstill.trans (Bool.eq_false_of_not_eq_true hactive)) rfl
        dsimp only
        rw [hmatches]
        exact checksResolve_reset h (fun hdue ↦ hactive hdue.2) hreads'
  · rw [if_neg hvalue]
    exact checksResolve_reset h (fun hdue ↦ hvalue hdue.1)
      ⟨rfl, rfl, h.incidentCoherent, h.triggersCoherent, KeepsCounts.refl p⟩

theorem checkTrigger_checks (h : p.Coherent) (rule : AlertRule) (update : QuerySubscriptionUpdate)
    (value : ℚ) (trigger : AlertRuleTrigger) :
    Checks trigger p ((p.view update trigger).statuses rule trigger value)
      ((p.view update trigger).nextAlertCount rule trigger value)
      ((p.view update trigger).nextResolveCount rule trigger value)
      (checkTrigger rule update value p trigger) := by
  obtain ⟨halert, hactive⟩ := checkAlert_checks h rule update value trigger
  have hresolve : Checks trigger _ _ _ _ _ :=
    checkResolve_checks halert.coherent rule value trigger
  have hdue : rule.Resolves trigger value ∧
      (checkAlert rule update value p trigger).isActive trigger = true ↔
        (p.view update trigger).ResolveDue rule trigger value := by
    rw [hactive, Bool.or_eq_true, decide_eq_true_iff]
    rfl
  have hfires : (p.view update trigger).ResolveDue rule trigger value ∧
      rule.thresholdPeriod ≤ p.triggerResolveCounts trigger.id + 1 ↔
        (p.view update trigger).ResolveFires rule trigger value := Iff.rfl
  have hcounted : (p.view update trigger).ResolveDue rule trigger value ∧
      ¬ rule.thresholdPeriod ≤ p.triggerResolveCounts trigger.id + 1 ↔
        (p.view update trigger).ResolveDue rule trigger value ∧
          ¬ (p.view update trigger).ResolveFires rule trigger value := by
    tauto
  have hchecks := halert.trans hresolve
  simp only [halert.resolveCount_eq, halert.alertCount_eq, hdue, hcounted, hfires,
    decide_eq_true_iff] at hchecks
  exact hchecks

/-! ### All triggers -/

/-- The triggers are checked: the statuses that are written and their counts, from what was known of
them before. Others are as before. -/
structure ChecksAll (rule : AlertRule) (update : QuerySubscriptionUpdate) (value : ℚ)
    (triggers : List AlertRuleTrigger) (p q : SubscriptionProcessor) : Prop where
  coherent : q.Coherent
  keepsStats : KeepsStats p q
  written_eq : q.state.written = p.state.written ++ triggers.flatMap fun trigger ↦
    ((p.view update trigger).statuses rule trigger value).map fun status ↦ (trigger.id, status)
  tables_eq : (∀ trigger ∈ triggers, (p.view update trigger).statuses rule trigger value = []) →
    q.state.tables = p.state.tables
  alertCount_eq : ∀ trigger ∈ triggers, q.triggerAlertCounts trigger.id =
    (p.view update trigger).nextAlertCount rule trigger value
  resolveCount_eq : ∀ trigger ∈ triggers, q.triggerResolveCounts trigger.id =
    (p.view update trigger).nextResolveCount rule trigger value
  view_of_ne : ∀ other : AlertRuleTrigger, (∀ trigger ∈ triggers, other.id ≠ trigger.id) →
    q.view update other = p.view update other

theorem foldl_checkTrigger_checks (h : p.Coherent) (rule : AlertRule)
    (update : QuerySubscriptionUpdate) (value : ℚ) {triggers : List AlertRuleTrigger}
    (hnodup : (triggers.map (·.id)).Nodup) :
    ChecksAll rule update value triggers p
      (triggers.foldl (checkTrigger rule update value) p) := by
  induction triggers generalizing p with
  | nil =>
    exact ⟨h, KeepsStats.refl p, (append_nil _).symm, fun _ ↦ rfl, by simp, by simp, fun _ _ ↦ rfl⟩
  | cons trigger rest ih =>
    obtain ⟨hnew, hrest⟩ := nodup_cons.mp hnodup
    have hfirst := checkTrigger_checks h rule update value trigger
    have hlater := ih hfirst.coherent hrest
    have hne (other : AlertRuleTrigger) (hother : other ∈ rest) : other.id ≠ trigger.id :=
      fun hid ↦ hnew (List.mem_map.mpr ⟨other, hother, hid⟩)
    have hview (other : AlertRuleTrigger) (hother : other ∈ rest) :=
      hfirst.view_of_ne update other (hne other hother)
    have hkept : (checkTrigger rule update value p trigger).view update trigger =
        (rest.foldl (checkTrigger rule update value)
          (checkTrigger rule update value p trigger)).view update trigger :=
      (hlater.view_of_ne trigger fun other hother ↦ (hne other hother).symm).symm
    rw [foldl_cons]
    refine ⟨hlater.coherent, hfirst.keepsStats.trans hlater.keepsStats, ?_, ?_, ?_, ?_, ?_⟩
    · rw [hlater.written_eq, hfirst.written_eq, append_assoc, flatMap_cons]
      congr 2
      refine flatMap_congr fun other hother ↦ ?_
      rw [hview other hother]
    · intro hnone
      obtain ⟨hnil, hnils⟩ := forall_mem_cons.mp hnone
      rw [hlater.tables_eq, hfirst.tables_eq hnil]
      intro other hother
      rw [hview other hother]
      exact hnils other hother
    · intro other hother
      rcases mem_cons.mp hother with rfl | hother
      · rw [← hfirst.alertCount_eq]
        exact (congrArg TriggerView.alertCount hkept).symm
      · rw [hlater.alertCount_eq other hother, hview other hother]
    · intro other hother
      rcases mem_cons.mp hother with rfl | hother
      · rw [← hfirst.resolveCount_eq]
        exact (congrArg TriggerView.resolveCount hkept).symm
      · rw [hlater.resolveCount_eq other hother, hview other hother]
    · intro other hother
      obtain ⟨hfirstNe, hrestNe⟩ := forall_mem_cons.mp hother
      rw [hlater.view_of_ne other hrestNe, hfirst.view_of_ne update other hfirstNe]

end SubscriptionProcessor

end Sentry.Incidents
