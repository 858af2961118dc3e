import Sentry.Incidents.IncidentTables

/-!
# The caches of the processor

A processor works on copies of the active incident and its triggers, and the active incident is
cached between updates. The copies are what the database has (`IncidentCoherent`,
`TriggersCoherent`), since every save clears the cache and is made to the copy as well. So turning a
trigger keeps the tables well-formed (`activateTrigger_spec`, `resolveTrigger_spec`).
-/

namespace Sentry.Incidents

open AlertTables List

namespace SubscriptionProcessor

/-- The cached active incident and the copy of the processor are the active incident. -/
structure IncidentCoherent (p : SubscriptionProcessor) : Prop where
  cache : ∀ incident, p.state.activeIncidentCache = some incident →
    incident = p.state.tables.queryActiveIncident
  attr : ∀ incident, p.activeIncidentAttr = some incident →
    incident = p.state.tables.queryActiveIncident

def TriggersCoherent (p : SubscriptionProcessor) : Prop :=
  ∀ incidentTriggers, p.incidentTriggersAttr = some incidentTriggers →
    incidentTriggers = p.state.tables.activeTriggers

/-- What was loaded and the values of the history are kept. -/
structure KeepsStats (p q : SubscriptionProcessor) : Prop where
  lastUpdate : q.lastUpdate = p.lastUpdate
  origTriggerAlertCounts : q.origTriggerAlertCounts = p.origTriggerAlertCounts
  origTriggerResolveCounts : q.origTriggerResolveCounts = p.origTriggerResolveCounts
  stats : q.state.stats = p.state.stats
  evaluated : q.state.evaluated = p.state.evaluated

/-- The counts are kept as well. -/
structure KeepsCounts (p q : SubscriptionProcessor) : Prop extends KeepsStats p q where
  triggerAlertCounts : q.triggerAlertCounts = p.triggerAlertCounts
  triggerResolveCounts : q.triggerResolveCounts = p.triggerResolveCounts

theorem KeepsStats.refl (p : SubscriptionProcessor) : KeepsStats p p :=
  ⟨rfl, rfl, rfl, rfl, rfl⟩

theorem KeepsStats.trans {p q r : SubscriptionProcessor} (h : KeepsStats p q)
    (h' : KeepsStats q r) : KeepsStats p r where
  lastUpdate := h'.lastUpdate.trans h.lastUpdate
  origTriggerAlertCounts := h'.origTriggerAlertCounts.trans h.origTriggerAlertCounts
  origTriggerResolveCounts := h'.origTriggerResolveCounts.trans h.origTriggerResolveCounts
  stats := h'.stats.trans h.stats
  evaluated := h'.evaluated.trans h.evaluated

theorem KeepsCounts.refl (p : SubscriptionProcessor) : KeepsCounts p p :=
  ⟨KeepsStats.refl p, rfl, rfl⟩

theorem KeepsCounts.trans {p q r : SubscriptionProcessor} (h : KeepsCounts p q)
    (h' : KeepsCounts q r) : KeepsCounts p r where
  toKeepsStats := h.toKeepsStats.trans h'.toKeepsStats
  triggerAlertCounts := h'.triggerAlertCounts.trans h.triggerAlertCounts
  triggerResolveCounts := h'.triggerResolveCounts.trans h.triggerResolveCounts

/-- A processor that has written the incidents, with the copies of the triggers as they were. -/
structure Writes (p : SubscriptionProcessor) (tables : AlertTables) (q : SubscriptionProcessor) :
    Prop where
  tables_eq : q.state.tables = tables
  turned_eq : q.state.turned = p.state.turned
  incidentCoherent : q.IncidentCoherent
  incidentTriggersAttr_eq : q.incidentTriggersAttr = p.incidentTriggersAttr
  keepsCounts : KeepsCounts p q

theorem Writes.trans {p q r : SubscriptionProcessor} {tables tables' : AlertTables}
    (h : Writes p tables q) (h' : Writes q tables' r) : Writes p tables' r where
  tables_eq := h'.tables_eq
  turned_eq := h'.turned_eq.trans h.turned_eq
  incidentCoherent := h'.incidentCoherent
  incidentTriggersAttr_eq := h'.incidentTriggersAttr_eq.trans h.incidentTriggersAttr_eq
  keepsCounts := h.keepsCounts.trans h'.keepsCounts

theorem Writes.setTriggers {p q : SubscriptionProcessor} {tables : AlertTables}
    (h : Writes p tables q) (incidentTriggers : List IncidentTrigger) :
    Writes { p with incidentTriggersAttr := some incidentTriggers } tables
      { q with incidentTriggersAttr := some incidentTriggers } :=
  ⟨h.tables_eq, h.turned_eq, ⟨h.incidentCoherent.cache, h.incidentCoherent.attr⟩, rfl,
    { h.keepsCounts with }⟩

theorem Writes.triggersCoherent {p q : SubscriptionProcessor} (h : Writes p p.state.tables q)
    (htriggers : p.TriggersCoherent) : q.TriggersCoherent := by
  intro incidentTriggers hattr
  rw [h.tables_eq]
  exact htriggers incidentTriggers (h.incidentTriggersAttr_eq ▸ hattr)

variable {p : SubscriptionProcessor}

theorem activeIncident_spec (h : p.IncidentCoherent) :
    p.activeIncident.1 = p.state.tables.queryActiveIncident ∧
      Writes p p.state.tables p.activeIncident.2 := by
  rw [activeIncident]
  cases hattr : p.activeIncidentAttr with
  | some incident =>
    exact ⟨h.attr incident hattr, ⟨rfl, rfl, h, rfl, KeepsCounts.refl p⟩⟩
  | none =>
    rw [SubscriptionState.getActiveIncident]
    cases hcache : p.state.activeIncidentCache with
    | some incident =>
      have hincident := h.cache incident hcache
      refine ⟨hincident, rfl, rfl, ⟨h.cache, ?_⟩, rfl, ⟨⟨rfl, rfl, rfl, rfl, rfl⟩, rfl, rfl⟩⟩
      intro other hother
      rwa [← Option.some.inj hother]
    | none =>
      refine ⟨rfl, rfl, rfl, ⟨?_, ?_⟩, rfl, ⟨⟨rfl, rfl, rfl, rfl, rfl⟩, rfl, rfl⟩⟩
      · intro incident hincident
        exact (Option.some.inj hincident).symm
      · intro incident hincident
        exact (Option.some.inj hincident).symm

/-- What a read of the copies of the triggers leaves. -/
structure Reads (p q : SubscriptionProcessor) : Prop where
  tables_eq : q.state.tables = p.state.tables
  turned_eq : q.state.turned = p.state.turned
  incidentCoherent : q.IncidentCoherent
  triggersCoherent : q.TriggersCoherent
  keepsCounts : KeepsCounts p q

theorem Writes.reads {q : SubscriptionProcessor} (h : Writes p p.state.tables q)
    (htriggers : p.TriggersCoherent) : Reads p q :=
  ⟨h.tables_eq, h.turned_eq, h.incidentCoherent, h.triggersCoherent htriggers, h.keepsCounts⟩

theorem incidentTriggerMap_spec (h : p.IncidentCoherent) (htriggers : p.TriggersCoherent) :
    p.incidentTriggerMap.1 = p.state.tables.activeTriggers ∧ Reads p p.incidentTriggerMap.2 := by
  rw [incidentTriggerMap]
  cases hattr : p.incidentTriggersAttr with
  | some incidentTriggers =>
    exact ⟨htriggers incidentTriggers hattr, ⟨rfl, rfl, h, htriggers, KeepsCounts.refl p⟩⟩
  | none =>
    obtain ⟨hincident, hwrites⟩ := activeIncident_spec h
    have hrows : (p.activeIncident.1.map fun incident ↦
        p.activeIncident.2.state.tables.triggersOf incident.id).getD [] =
          p.state.tables.activeTriggers := by
      rw [hincident, hwrites.tables_eq, activeTriggers]
    obtain ⟨htables, hturned, ⟨hcache, hattr⟩, _, hcounts⟩ := hwrites
    refine ⟨hrows, htables, hturned, ⟨hcache, hattr⟩, ?_, { hcounts with }⟩
    intro incidentTriggers hincidentTriggers
    rw [← Option.some.inj hincidentTriggers]
    exact hrows.trans (congrArg activeTriggers htables.symm)

theorem checkTriggerMatchesStatus_spec (h : p.IncidentCoherent) (htriggers : p.TriggersCoherent)
    (trigger : AlertRuleTrigger) (status : TriggerStatus) :
    (p.checkTriggerMatchesStatus trigger status).1 =
        (getTrigger p.state.tables.activeTriggers trigger).any (fun row ↦ row.status = status) ∧
      Reads p (p.checkTriggerMatchesStatus trigger status).2 := by
  obtain ⟨hrows, hreads⟩ := incidentTriggerMap_spec h htriggers
  refine ⟨?_, hreads⟩
  rw [← hrows]
  rfl

variable {incident : Incident}

theorem setStatus_self {tables : AlertTables} (h : tables.Consistent)
    (hincident : incident ∈ tables.incidents) :
    tables.setStatus incident.id incident.status = tables := by
  have hsame : (tables.incidents.map fun other ↦
      if other.id = incident.id then { other with status := incident.status } else other) =
        tables.incidents := by
    refine (map_congr_left fun other hother ↦ ?_).trans (map_id _)
    split_ifs with hid
    · rw [h.distinct other hother incident hincident hid]
      rfl
    · rfl
  rw [setStatus, hsame]

section

variable (hconsistent : p.state.tables.Consistent) (h : p.IncidentCoherent) {incident : Incident}
  (hquery : p.state.tables.queryActiveIncident = some incident)

include hconsistent h hquery

theorem updateIncidentStatus_spec {status : IncidentStatus} (hopen : status ≠ .closed) :
    Writes p (p.state.tables.setStatus incident.id status)
      (p.updateIncidentStatus incident status) := by
  obtain ⟨hincident, -⟩ := (queryActiveIncident_eq_some_iff hconsistent).mp hquery
  rw [updateIncidentStatus]
  split_ifs with hsame
  · rw [← hsame, setStatus_self hconsistent hincident]
    exact ⟨rfl, rfl, h, rfl, KeepsCounts.refl p⟩
  · have hothers := id_eq_of_queryActiveIncident hconsistent hquery
    have hnow : (p.state.tables.setStatus incident.id status).queryActiveIncident =
        some { incident with status := status } :=
      (queryActiveIncident_eq_some_iff (hconsistent.setStatus hothers status)).mpr
        ⟨mem_incidents_setStatus.mpr ⟨incident, hincident, (if_pos rfl).symm⟩, hopen⟩
    refine ⟨rfl, rfl, ⟨?_, ?_⟩, rfl, ⟨⟨rfl, rfl, rfl, rfl, rfl⟩, rfl, rfl⟩⟩
    · intro other hother
      cases hother
    · intro other hother
      rw [← Option.some.inj hother]
      exact hnow.symm

theorem handleIncidentSeverityUpdate_spec :
    Writes p (p.state.tables.setSeverity incident.id) p.handleIncidentSeverityUpdate := by
  obtain ⟨hincident, hwrites⟩ := activeIncident_spec h
  rw [handleIncidentSeverityUpdate]
  generalize p.activeIncident = read at hincident hwrites
  obtain ⟨found, q⟩ := read
  rw [hquery] at hincident
  subst hincident
  have htables := hwrites.tables_eq
  dsimp only
  rw [setSeverity, ← htables]
  cases hseverity : severityLoop none (q.state.tables.activeLabels incident.id) with
  | none =>
    rw [activeLabels] at hseverity
    rw [hseverity]
    rw [← htables] at hwrites
    exact hwrites
  | some severity =>
    have hopen : severity ≠ .closed := by
      rintro rfl
      exact severityLoop_ne_closed (by simp) _ hseverity
    rw [activeLabels] at hseverity
    rw [hseverity]
    refine hwrites.trans (updateIncidentStatus_spec ?_ hwrites.incidentCoherent ?_ hopen)
    all_goals rwa [htables]

end

/-- An incident is active, and all others agree with their triggers. -/
structure Ensures (p : SubscriptionProcessor) (incident : Incident) (q : SubscriptionProcessor) :
    Prop where
  query : q.state.tables.queryActiveIncident = some incident
  consistent : q.state.tables.Consistent
  agreeExcept : q.state.tables.AgreeExcept incident.id
  incidentTriggers_eq : q.state.tables.incidentTriggers = p.state.tables.incidentTriggers
  turned_eq : q.state.turned = p.state.turned
  incidentCoherent : q.IncidentCoherent
  triggersCoherent : q.TriggersCoherent
  keepsCounts : KeepsCounts p q

theorem triggersOf_nextIncidentId {tables : AlertTables} (h : tables.Consistent) :
    tables.triggersOf tables.nextIncidentId = [] := by
  rw [triggersOf, filter_eq_nil_iff]
  intro row hrow hid
  exact (h.incidentId_lt row hrow).ne (of_decide_eq_true hid)

theorem ensureIncident_spec (hwellFormed : p.state.tables.WellFormed) (h : p.IncidentCoherent)
    (htriggers : p.TriggersCoherent) (dateAdded : ℚ) :
    Ensures p (p.ensureIncident dateAdded).1 (p.ensureIncident dateAdded).2 := by
  obtain ⟨hincident, hwrites⟩ := activeIncident_spec h
  rw [ensureIncident]
  generalize p.activeIncident = read at hincident hwrites
  obtain ⟨found, q⟩ := read
  have htriggers' := hwrites.triggersCoherent htriggers
  obtain ⟨htables, hturned, hcoherent, _, hcounts⟩ := hwrites
  rw [← htables] at hwellFormed hincident
  have hconsistent := hwellFormed.consistent
  cases found with
  | some incident =>
    exact ⟨hincident.symm, hconsistent, hwellFormed.agreeExcept incident.id, by rw [htables],
      hturned, hcoherent, htriggers', hcounts⟩
  | none =>
    have hclosed := (queryActiveIncident_eq_none_iff hconsistent).mp hincident.symm
    have hcreated := hconsistent.createIncident hclosed dateAdded
    have hquery : (q.state.tables.createIncident dateAdded).queryActiveIncident =
        some ⟨q.state.tables.nextIncidentId, .opened, dateAdded⟩ :=
      (queryActiveIncident_eq_some_iff hcreated).mpr
        ⟨mem_append_right _ (mem_singleton_self _), by simp⟩
    have hrows := congrArg AlertTables.incidentTriggers htables
    refine ⟨hquery, hcreated, ?_, hrows, hturned, ⟨?_, ?_⟩, ?_, { hcounts with }⟩
    · intro incident hincident hne
      rw [agrees_createIncident_iff]
      rcases mem_append.mp hincident with hincident | hincident
      · exact hwellFormed.agrees incident hincident
      · rw [mem_singleton.mp hincident] at hne
        exact absurd rfl hne
    · intro incident hcache
      cases hcache
    · intro incident hattr
      rw [← Option.some.inj hattr]
      exact hquery.symm
    · intro incidentTriggers hattr
      rw [htriggers' incidentTriggers hattr, activeTriggers_of_eq_none hincident.symm]
      rw [activeTriggers_of_eq_some hquery, triggersOf_createIncident,
        triggersOf_nextIncidentId hconsistent]

/-- The entry of a trigger is written. -/
structure WritesTrigger (p : SubscriptionProcessor) (incidentTrigger : IncidentTrigger)
    (q : SubscriptionProcessor) : Prop where
  tables_eq : q.state.tables = p.state.tables.upsertTrigger incidentTrigger
  turned_eq : q.state.turned = p.state.turned ++ [⟨incidentTrigger, p.state.evaluated⟩]
  incidentCoherent : q.IncidentCoherent
  keepsCounts : KeepsCounts p q

theorem writeTrigger_spec (h : p.IncidentCoherent) (incidentTrigger : IncidentTrigger)
    {isSaved : Bool}
    (hsaved : isSaved = (getTrigger (p.state.tables.triggersOf incidentTrigger.incidentId)
      incidentTrigger.alertRuleTrigger).isSome) :
    WritesTrigger p incidentTrigger (p.writeTrigger isSaved incidentTrigger) := by
  have htables : (p.writeTrigger isSaved incidentTrigger).state.tables =
      p.state.tables.upsertTrigger incidentTrigger := by
    rw [upsertTrigger_eq, ← hsaved]
    rfl
  have hquery : (p.writeTrigger isSaved incidentTrigger).state.tables.queryActiveIncident =
      p.state.tables.queryActiveIncident := by
    rw [htables]
    rfl
  refine ⟨htables, rfl, ⟨?_, ?_⟩, ⟨⟨rfl, rfl, rfl, rfl, rfl⟩, rfl, rfl⟩⟩
  · rw [hquery]
    exact h.cache
  · rw [hquery]
    exact h.attr

section

variable {q : SubscriptionProcessor} {incidentTrigger : IncidentTrigger}

theorem WritesTrigger.setTriggers (h : WritesTrigger p incidentTrigger q)
    (incidentTriggers : List IncidentTrigger) :
    WritesTrigger p incidentTrigger { q with incidentTriggersAttr := some incidentTriggers } :=
  ⟨h.tables_eq, h.turned_eq, ⟨h.incidentCoherent.cache, h.incidentCoherent.attr⟩,
    { h.keepsCounts with }⟩

theorem WritesTrigger.queryActiveIncident_eq (h : WritesTrigger p incidentTrigger q) :
    q.state.tables.queryActiveIncident = p.state.tables.queryActiveIncident := by
  rw [h.tables_eq]
  rfl

theorem WritesTrigger.consistent (h : WritesTrigger p incidentTrigger q)
    (hconsistent : p.state.tables.Consistent) (hincident : incident ∈ p.state.tables.incidents)
    (hid : incidentTrigger.incidentId = incident.id) : q.state.tables.Consistent := by
  rw [h.tables_eq]
  apply hconsistent.upsertTrigger
  rw [hid]
  exact hconsistent.id_lt incident hincident

end

/-- A trigger is turned: its entry is written, and all incidents agree with their triggers. -/
structure Turns (p : SubscriptionProcessor) (incidentTrigger : IncidentTrigger)
    (q : SubscriptionProcessor) : Prop where
  wellFormed : q.state.tables.WellFormed
  incidentTriggers_eq : q.state.tables.incidentTriggers =
    upsertRow p.state.tables.incidentTriggers incidentTrigger
  turned_eq : q.state.turned = p.state.turned ++ [⟨incidentTrigger, p.state.evaluated⟩]
  incidentCoherent : q.IncidentCoherent
  triggersCoherent : q.TriggersCoherent
  keepsCounts : KeepsCounts p q

variable {incidentTrigger : IncidentTrigger}

theorem Turns.of_keepsCounts {q r : SubscriptionProcessor} (h : Turns q incidentTrigger r)
    (hrows : q.state.tables.incidentTriggers = p.state.tables.incidentTriggers)
    (hturned : q.state.turned = p.state.turned) (hcounts : KeepsCounts p q) :
    Turns p incidentTrigger r := by
  refine ⟨h.wellFormed, ?_, ?_, h.incidentCoherent, h.triggersCoherent, hcounts.trans h.keepsCounts⟩
  · rw [h.incidentTriggers_eq, hrows]
  · rw [h.turned_eq, hturned, hcounts.evaluated]

/-- Assumes: a trigger of the active incident is written, and one is still active. Setting the
status from the active triggers turns the trigger. -/
theorem WritesTrigger.turns {q r : SubscriptionProcessor} (h : WritesTrigger p incidentTrigger q)
    (hconsistent : p.state.tables.Consistent)
    (hquery : p.state.tables.queryActiveIncident = some incident)
    (hagree : p.state.tables.AgreeExcept incident.id)
    (hid : incidentTrigger.incidentId = incident.id)
    (hactive : ∃ row ∈ setTrigger (p.state.tables.triggersOf incident.id) incidentTrigger,
      row.status = .active)
    (hseverity : Writes q (q.state.tables.setSeverity incident.id) r)
    (hattr : r.incidentTriggersAttr =
      some (setTrigger (p.state.tables.triggersOf incident.id) incidentTrigger)) :
    Turns p incidentTrigger r := by
  obtain ⟨hincident, hopen⟩ := (queryActiveIncident_eq_some_iff hconsistent).mp hquery
  have hrows : (p.state.tables.upsertTrigger incidentTrigger).triggersOf incident.id =
      setTrigger (p.state.tables.triggersOf incident.id) incidentTrigger := by
    rw [← hid]
    exact triggersOf_upsertTrigger _ _
  rw [h.tables_eq] at hseverity
  rw [← hrows] at hactive
  have hwellFormed : ((p.state.tables.upsertTrigger incidentTrigger).setSeverity
      incident.id).WellFormed := by
    refine wellFormed_setSeverity (hconsistent.upsertTrigger _ ?_) ?_ ?_ hactive
    · rw [hid]
      exact hconsistent.id_lt incident hincident
    · exact id_eq_of_queryActiveIncident hconsistent hquery
    · rw [← hid] at hagree ⊢
      exact hagree.upsertTrigger
  have htables := hseverity.tables_eq
  refine ⟨by rwa [← htables] at hwellFormed, ?_, hseverity.turned_eq.trans h.turned_eq,
    hseverity.incidentCoherent, ?_, h.keepsCounts.trans hseverity.keepsCounts⟩
  · rw [htables, incidentTriggers_setSeverity]
    rfl
  · intro incidentTriggers hincidentTriggers
    have hupserted : incident ∈ (p.state.tables.upsertTrigger incidentTrigger).incidents :=
      hincident
    rw [hattr] at hincidentTriggers
    rw [← Option.some.inj hincidentTriggers, htables, ← hrows]
    exact (activeTriggers_setSeverity hupserted hwellFormed hactive).symm

theorem activateTrigger_spec (hwellFormed : p.state.tables.WellFormed) (h : p.IncidentCoherent)
    (htriggers : p.TriggersCoherent) (trigger : AlertRuleTrigger) (dateAdded : ℚ) :
    ∃ incidentId, Turns p ⟨incidentId, trigger, .active⟩ (p.activateTrigger trigger dateAdded) := by
  have hensures := ensureIncident_spec hwellFormed h htriggers dateAdded
  rw [activateTrigger]
  generalize p.ensureIncident dateAdded = ensured at hensures
  obtain ⟨incident, q⟩ := ensured
  obtain ⟨hrows, hreads⟩ := incidentTriggerMap_spec hensures.incidentCoherent
    hensures.triggersCoherent
  dsimp only
  generalize q.incidentTriggerMap = read at hrows hreads
  obtain ⟨rows, r⟩ := read
  dsimp only at hrows hreads
  have hquery := hensures.query
  have hconsistent := hensures.consistent
  have hagree := hensures.agreeExcept
  rw [activeTriggers_of_eq_some hquery] at hrows
  rw [← hreads.tables_eq] at hquery hconsistent hagree hrows
  subst hrows
  have hincident := ((queryActiveIncident_eq_some_iff hconsistent).mp hquery).1
  have hwrites := writeTrigger_spec hreads.incidentCoherent ⟨incident.id, trigger, .active⟩ rfl
  have hseverity := handleIncidentSeverityUpdate_spec
    (hwrites.consistent hconsistent hincident rfl) hwrites.incidentCoherent
    (hwrites.queryActiveIncident_eq.trans hquery)
  have hturns := (hwrites.setTriggers _).turns hconsistent hquery hagree rfl
    (exists_mem_setTrigger _ _) (hseverity.setTriggers _) rfl
  refine ⟨incident.id, hturns.of_keepsCounts ?_ (hreads.turned_eq.trans hensures.turned_eq)
    (hensures.keepsCounts.trans hreads.keepsCounts)⟩
  rw [hreads.tables_eq, hensures.incidentTriggers_eq]

theorem updateIncidentStatus_closed (hopen : incident.status ≠ .closed) :
    p.updateIncidentStatus incident .closed =
      { p with
        state := { p.state with
          tables := p.state.tables.setStatus incident.id .closed
          activeIncidentCache := none }
        activeIncidentAttr := some (some { incident with status := .closed }) } := by
  rw [updateIncidentStatus, if_neg hopen]

/-- Assumes: a trigger of the active incident is written, and all are resolved. Closing the incident
turns the trigger. -/
theorem WritesTrigger.turns_close {q r : SubscriptionProcessor}
    (h : WritesTrigger p incidentTrigger q) (hconsistent : p.state.tables.Consistent)
    (hquery : p.state.tables.queryActiveIncident = some incident)
    (hagree : p.state.tables.AgreeExcept incident.id)
    (hid : incidentTrigger.incidentId = incident.id)
    (hresolved : checkTriggersResolved
      (setTrigger (p.state.tables.triggersOf incident.id) incidentTrigger))
    (hread : Writes q q.state.tables r) :
    Turns p incidentTrigger
      { r.updateIncidentStatus incident .closed with
        activeIncidentAttr := some none
        incidentTriggersAttr := some [] } := by
  obtain ⟨hincident, hopen⟩ := (queryActiveIncident_eq_some_iff hconsistent).mp hquery
  have htables := hread.tables_eq.trans h.tables_eq
  have hothers : ∀ other ∈ (p.state.tables.upsertTrigger incidentTrigger).incidents,
      other.status ≠ .closed → other.id = incident.id :=
    id_eq_of_queryActiveIncident hconsistent hquery
  have hwritten : (p.state.tables.upsertTrigger incidentTrigger).Consistent := by
    rw [← h.tables_eq]
    exact h.consistent hconsistent hincident hid
  have hnone := queryActiveIncident_close hwritten hothers
  rw [updateIncidentStatus_closed hopen]
  refine ⟨?_, ?_, hread.turned_eq.trans h.turned_eq, ⟨?_, ?_⟩, ?_,
    { h.keepsCounts.trans hread.keepsCounts with }⟩
  · show (r.state.tables.setStatus incident.id .closed).WellFormed
    rw [htables]
    refine wellFormed_close hwritten hothers ?_ ?_
    · rw [← hid] at hagree ⊢
      exact hagree.upsertTrigger
    · rw [← hid] at hresolved ⊢
      rwa [triggersOf_upsertTrigger]
  · show r.state.tables.incidentTriggers = _
    rw [htables]
    rfl
  · intro other hcache
    cases hcache
  · intro other hattr
    rw [← Option.some.inj hattr, htables, hnone]
  · intro incidentTriggers hattr
    rw [← Option.some.inj hattr, htables, activeTriggers_of_eq_none hnone]

theorem exists_of_getTrigger_activeTriggers {tables : AlertTables} {trigger : AlertRuleTrigger}
    (hentry : getTrigger tables.activeTriggers trigger = some incidentTrigger) :
    ∃ incident, tables.queryActiveIncident = some incident ∧
      incidentTrigger ∈ tables.triggersOf incident.id ∧
      incidentTrigger.incidentId = incident.id := by
  cases hquery : tables.queryActiveIncident with
  | none =>
    rw [activeTriggers_of_eq_none hquery] at hentry
    cases hentry
  | some incident =>
    rw [activeTriggers_of_eq_some hquery] at hentry
    have hmem := mem_of_find?_eq_some hentry
    exact ⟨incident, rfl, hmem, of_decide_eq_true (mem_filter.mp hmem).2⟩

/-- Assumes: the trigger has an entry. -/
theorem resolveTrigger_spec (hwellFormed : p.state.tables.WellFormed) (h : p.IncidentCoherent)
    (htriggers : p.TriggersCoherent) {trigger : AlertRuleTrigger}
    (hentry : getTrigger p.state.tables.activeTriggers trigger = some incidentTrigger) :
    Turns p { incidentTrigger with status := .resolved } (p.resolveTrigger trigger) := by
  obtain ⟨hrows, hreads⟩ := incidentTriggerMap_spec h htriggers
  rw [resolveTrigger]
  generalize p.incidentTriggerMap = read at hrows hreads
  obtain ⟨rows, q⟩ := read
  dsimp only at hrows hreads
  refine Turns.of_keepsCounts (q := q) ?_ (by rw [hreads.tables_eq]) hreads.turned_eq
    hreads.keepsCounts
  rw [← hreads.tables_eq] at hwellFormed hentry hrows
  subst hrows
  dsimp only
  rw [hentry]
  dsimp only
  obtain ⟨incident, hquery, hmem, hid⟩ := exists_of_getTrigger_activeTriggers hentry
  have hconsistent := hwellFormed.consistent
  obtain ⟨hincident, hopen⟩ := (queryActiveIncident_eq_some_iff hconsistent).mp hquery
  rw [activeTriggers_of_eq_some hquery]
  have hsaved : true = (getTrigger (q.state.tables.triggersOf incidentTrigger.incidentId)
      incidentTrigger.alertRuleTrigger).isSome := by
    rw [hid, eq_comm, getTrigger_isSome_iff]
    exact ⟨incidentTrigger, hmem, rfl⟩
  have hwrites := writeTrigger_spec hreads.incidentCoherent
    { incidentTrigger with status := .resolved } hsaved
  replace hwrites := hwrites.setTriggers (setTrigger (q.state.tables.triggersOf incident.id)
    { incidentTrigger with status := .resolved })
  split_ifs with hresolved
  · obtain ⟨hincidentEq, hread⟩ := activeIncident_spec hwrites.incidentCoherent
    rw [hwrites.queryActiveIncident_eq, hquery] at hincidentEq
    generalize activeIncident _ = read at hincidentEq hread
    obtain ⟨found, s⟩ := read
    subst hincidentEq
    exact hwrites.turns_close hconsistent hquery (hwellFormed.agreeExcept incident.id) hid hresolved
      hread
  · have hseverity := handleIncidentSeverityUpdate_spec
      (hwrites.consistent hconsistent hincident hid) hwrites.incidentCoherent
      (hwrites.queryActiveIncident_eq.trans hquery)
    exact hwrites.turns hconsistent hquery (hwellFormed.agreeExcept incident.id) hid
      (exists_active_of_not_resolved hresolved) hseverity hseverity.incidentTriggersAttr_eq

end SubscriptionProcessor

end Sentry.Incidents
