import Sentry.Incidents.SubscriptionProcessor

/-!
# Incidents and their triggers

At most one incident is open (`Consistent`), and it is the active one
(`queryActiveIncident_eq_some_iff`). An incident agrees with its triggers when it is open exactly
while one of them is active, and critical exactly while a critical one is (`Agrees`). A trigger is
written first and the status of the incident set after it, so in between all incidents agree but one
(`AgreeExcept`), which setting the status brings back (`wellFormed_setSeverity`,
`wellFormed_close`).
-/

namespace Sentry.Incidents

open SubscriptionProcessor List Function

variable {rows : List IncidentTrigger}

theorem getTrigger_isSome_iff {trigger : AlertRuleTrigger} :
    (getTrigger rows trigger).isSome ↔ ∃ row ∈ rows, row.alertRuleTrigger.id = trigger.id := by
  simp [getTrigger, find?_isSome]

theorem id_eq_of_getTrigger {trigger : AlertRuleTrigger}
    {row : IncidentTrigger} (h : getTrigger rows trigger = some row) :
    row.alertRuleTrigger.id = trigger.id := by
  have hfound := find?_some h
  exact of_decide_eq_true hfound

theorem exists_mem_setTrigger (rows : List IncidentTrigger) (incidentTrigger : IncidentTrigger) :
    ∃ row ∈ setTrigger rows incidentTrigger, row.status = incidentTrigger.status := by
  rw [setTrigger]
  split_ifs with hsome
  · obtain ⟨row, hrow, hid⟩ := getTrigger_isSome_iff.mp hsome
    refine ⟨{ row with status := incidentTrigger.status }, ?_, rfl⟩
    exact List.mem_map.mpr ⟨row, hrow, if_pos hid⟩
  · exact ⟨incidentTrigger, mem_append_right _ (mem_singleton_self _), rfl⟩

theorem getTrigger_setTrigger_self (rows : List IncidentTrigger)
    (incidentTrigger : IncidentTrigger) : ∃ row,
      getTrigger (setTrigger rows incidentTrigger) incidentTrigger.alertRuleTrigger = some row ∧
        row.status = incidentTrigger.status := by
  rw [setTrigger]
  split_ifs with hsome
  · obtain ⟨row, hrow⟩ := Option.isSome_iff_exists.mp hsome
    have hid := id_eq_of_getTrigger hrow
    refine ⟨{ row with status := incidentTrigger.status }, ?_, rfl⟩
    rw [getTrigger, find?_map]
    have hcomp : ((fun row : IncidentTrigger ↦
        decide (row.alertRuleTrigger.id = incidentTrigger.alertRuleTrigger.id)) ∘ fun row ↦
          if row.alertRuleTrigger.id = incidentTrigger.alertRuleTrigger.id then
            { row with status := incidentTrigger.status }
          else row) =
        fun row ↦ decide (row.alertRuleTrigger.id = incidentTrigger.alertRuleTrigger.id) := by
      ext other
      rw [comp_apply]
      split_ifs <;> rfl
    rw [hcomp]
    show (getTrigger rows incidentTrigger.alertRuleTrigger).map _ = _
    rw [hrow, Option.map_some, if_pos hid]
  · refine ⟨incidentTrigger, ?_, rfl⟩
    rw [getTrigger, find?_append]
    show (getTrigger rows incidentTrigger.alertRuleTrigger).or _ = _
    rw [Option.not_isSome_iff_eq_none.mp hsome, Option.none_or, find?_cons_of_pos (by simp)]

theorem getTrigger_setTrigger_of_ne (rows : List IncidentTrigger)
    {incidentTrigger : IncidentTrigger} {trigger : AlertRuleTrigger}
    (hne : trigger.id ≠ incidentTrigger.alertRuleTrigger.id) :
    getTrigger (setTrigger rows incidentTrigger) trigger = getTrigger rows trigger := by
  rw [setTrigger]
  split_ifs
  · rw [getTrigger, find?_map]
    have hcomp : ((fun row : IncidentTrigger ↦ decide (row.alertRuleTrigger.id = trigger.id)) ∘
        fun row ↦
          if row.alertRuleTrigger.id = incidentTrigger.alertRuleTrigger.id then
            { row with status := incidentTrigger.status }
          else row) = fun row ↦ decide (row.alertRuleTrigger.id = trigger.id) := by
      ext other
      rw [comp_apply]
      split_ifs <;> rfl
    rw [hcomp]
    show (getTrigger rows trigger).map _ = getTrigger rows trigger
    cases hrow : getTrigger rows trigger with
    | none => rfl
    | some row =>
      rw [Option.map_some, if_neg]
      rw [id_eq_of_getTrigger hrow]
      exact hne
  · rw [getTrigger, find?_append]
    show (getTrigger rows trigger).or _ = getTrigger rows trigger
    rw [find?_cons_of_neg (by simpa using hne.symm), find?_nil, Option.or_none]

def upsertRow (rows : List IncidentTrigger) (incidentTrigger : IncidentTrigger) :
    List IncidentTrigger :=
  if (getTrigger (rows.filter fun row ↦ row.incidentId = incidentTrigger.incidentId)
      incidentTrigger.alertRuleTrigger).isSome then
    rows.map fun row ↦
      if row.incidentId = incidentTrigger.incidentId ∧
        row.alertRuleTrigger.id = incidentTrigger.alertRuleTrigger.id then
        { row with status := incidentTrigger.status }
      else row
  else rows ++ [incidentTrigger]

theorem mem_upsertRow {incidentTrigger row : IncidentTrigger}
    (hrow : row ∈ upsertRow rows incidentTrigger) :
    row = incidentTrigger ∨ ∃ before ∈ rows, row.incidentId = before.incidentId ∧
      row.alertRuleTrigger = before.alertRuleTrigger := by
  rw [upsertRow] at hrow
  split_ifs at hrow
  · obtain ⟨before, hbefore, rfl⟩ := List.mem_map.mp hrow
    refine Or.inr ⟨before, hbefore, ?_⟩
    split_ifs <;> exact ⟨rfl, rfl⟩
  · rcases mem_append.mp hrow with hrow | hrow
    · exact Or.inr ⟨row, hrow, rfl, rfl⟩
    · exact Or.inl (mem_singleton.mp hrow)

namespace AlertTables

variable {tables : AlertTables}

/-- The keys of the tables, and at most one open incident. -/
structure Consistent (tables : AlertTables) : Prop where
  distinct : ∀ incident ∈ tables.incidents, ∀ other ∈ tables.incidents,
    incident.id = other.id → incident = other
  id_lt : ∀ incident ∈ tables.incidents, incident.id < tables.nextIncidentId
  incidentId_lt : ∀ row ∈ tables.incidentTriggers, row.incidentId < tables.nextIncidentId
  oneOpen : ∀ incident ∈ tables.incidents, ∀ other ∈ tables.incidents,
    incident.status ≠ .closed → other.status ≠ .closed → incident = other

/-- An incident is open exactly when one of its triggers is active, and while it is open it is
critical exactly when a critical trigger is active. -/
structure Agrees (tables : AlertTables) (incident : Incident) : Prop where
  open_iff : incident.status ≠ .closed ↔ ∃ row ∈ tables.triggersOf incident.id, row.status = .active
  critical_iff : incident.status ≠ .closed → (incident.status = .critical ↔
    ∃ row ∈ tables.triggersOf incident.id,
      row.status = .active ∧ row.alertRuleTrigger.label = .critical)

def AgreeExcept (tables : AlertTables) (incidentId : ℕ) : Prop :=
  ∀ incident ∈ tables.incidents, incident.id ≠ incidentId → tables.Agrees incident

/-- The tables between the processing of two triggers. -/
structure WellFormed (tables : AlertTables) : Prop where
  consistent : tables.Consistent
  agrees : ∀ incident ∈ tables.incidents, tables.Agrees incident

theorem WellFormed.agreeExcept (h : tables.WellFormed) (incidentId : ℕ) :
    tables.AgreeExcept incidentId :=
  fun incident hincident _ ↦ h.agrees incident hincident

variable {incident : Incident}

theorem queryActiveIncident_eq_some_iff (h : tables.Consistent) :
    tables.queryActiveIncident = some incident ↔
      incident ∈ tables.incidents ∧ incident.status ≠ .closed := by
  constructor
  · intro hquery
    have hmem := argmax_mem hquery
    simpa using hmem
  · intro ⟨hincident, hopen⟩
    have hmem : incident ∈ tables.incidents.filter fun incident ↦ incident.status ≠ .closed :=
      mem_filter.mpr ⟨hincident, by simpa using hopen⟩
    cases hquery : tables.queryActiveIncident with
    | none =>
      rw [queryActiveIncident, argmax_eq_none] at hquery
      rw [hquery] at hmem
      cases hmem
    | some other =>
      have hother := argmax_mem hquery
      rw [mem_filter, decide_eq_true_iff] at hother
      rw [h.oneOpen other hother.1 incident hincident hother.2 hopen]

theorem id_eq_of_queryActiveIncident (h : tables.Consistent) {incident : Incident}
    (hquery : tables.queryActiveIncident = some incident) (other : Incident)
    (hother : other ∈ tables.incidents) (hopen : other.status ≠ .closed) :
    other.id = incident.id := by
  have hactive := (queryActiveIncident_eq_some_iff h).mpr ⟨hother, hopen⟩
  rw [hquery] at hactive
  rw [Option.some.inj hactive]

theorem queryActiveIncident_eq_none_iff (h : tables.Consistent) :
    tables.queryActiveIncident = none ↔
      ∀ incident ∈ tables.incidents, incident.status = .closed := by
  constructor
  · intro hquery incident hincident
    by_contra hopen
    rw [(queryActiveIncident_eq_some_iff h).mpr ⟨hincident, hopen⟩] at hquery
    cases hquery
  · intro hclosed
    by_contra hquery
    obtain ⟨incident, hsome⟩ := Option.ne_none_iff_exists'.mp hquery
    obtain ⟨hincident, hopen⟩ := (queryActiveIncident_eq_some_iff h).mp hsome
    exact hopen (hclosed incident hincident)

section Writes

variable (tables)

@[simp] theorem triggersOf_createIncident (dateAdded : ℚ) (id : ℕ) :
    (tables.createIncident dateAdded).triggersOf id = tables.triggersOf id := rfl

theorem agrees_setStatus_iff (incidentId : ℕ) (status : IncidentStatus) (incident : Incident) :
    (tables.setStatus incidentId status).Agrees incident ↔ tables.Agrees incident :=
  ⟨fun h ↦ ⟨h.open_iff, h.critical_iff⟩, fun h ↦ ⟨h.open_iff, h.critical_iff⟩⟩

theorem agrees_createIncident_iff (dateAdded : ℚ) (incident : Incident) :
    (tables.createIncident dateAdded).Agrees incident ↔ tables.Agrees incident :=
  ⟨fun h ↦ ⟨h.open_iff, h.critical_iff⟩, fun h ↦ ⟨h.open_iff, h.critical_iff⟩⟩

def upsertTrigger (incidentTrigger : IncidentTrigger) : AlertTables :=
  { tables with incidentTriggers := upsertRow tables.incidentTriggers incidentTrigger }

theorem upsertTrigger_eq (incidentTrigger : IncidentTrigger) :
    tables.upsertTrigger incidentTrigger =
      if (getTrigger (tables.triggersOf incidentTrigger.incidentId)
          incidentTrigger.alertRuleTrigger).isSome then
        tables.saveTrigger incidentTrigger
      else tables.createTrigger incidentTrigger := by
  rw [upsertTrigger, upsertRow, triggersOf]
  split_ifs <;> rfl

theorem triggersOf_saveTrigger (incidentTrigger : IncidentTrigger) (id : ℕ) :
    (tables.saveTrigger incidentTrigger).triggersOf id =
      (tables.triggersOf id).map fun row ↦
        if row.incidentId = incidentTrigger.incidentId ∧
          row.alertRuleTrigger.id = incidentTrigger.alertRuleTrigger.id then
          { row with status := incidentTrigger.status }
        else row := by
  rw [triggersOf, saveTrigger, filter_map, triggersOf]
  congr 1
  refine filter_congr fun row _ ↦ ?_
  simp only [comp_apply]
  split_ifs <;> rfl

theorem triggersOf_upsertTrigger_of_ne {incidentTrigger : IncidentTrigger} {id : ℕ}
    (hne : id ≠ incidentTrigger.incidentId) :
    (tables.upsertTrigger incidentTrigger).triggersOf id = tables.triggersOf id := by
  rw [upsertTrigger_eq]
  split_ifs
  · rw [triggersOf_saveTrigger]
    refine (map_congr_left fun row hrow ↦ ?_).trans (map_id _)
    have hid : row.incidentId = id := of_decide_eq_true (mem_filter.mp hrow).2
    exact if_neg fun h ↦ hne (hid.symm.trans h.1)
  · rw [createTrigger, triggersOf, filter_append, triggersOf,
      filter_cons_of_neg (by simpa using hne.symm), filter_nil, append_nil]

theorem triggersOf_upsertTrigger (incidentTrigger : IncidentTrigger) :
    (tables.upsertTrigger incidentTrigger).triggersOf incidentTrigger.incidentId =
      setTrigger (tables.triggersOf incidentTrigger.incidentId) incidentTrigger := by
  rw [upsertTrigger_eq, setTrigger]
  split_ifs
  · rw [triggersOf_saveTrigger]
    refine map_congr_left fun row hrow ↦ ?_
    have hid : row.incidentId = incidentTrigger.incidentId :=
      of_decide_eq_true (mem_filter.mp hrow).2
    simp only [hid, true_and]
  · rw [createTrigger, triggersOf, filter_append, triggersOf,
      filter_cons_of_pos (by simp), filter_nil]

end Writes

theorem mem_incidents_setStatus {incidentId : ℕ} {status : IncidentStatus} :
    incident ∈ (tables.setStatus incidentId status).incidents ↔
      ∃ before ∈ tables.incidents, incident =
        if before.id = incidentId then { before with status := status } else before := by
  rw [setStatus, mem_map]
  exact exists_congr fun before ↦ and_congr_right fun _ ↦ eq_comm

theorem Consistent.createIncident (h : tables.Consistent)
    (hclosed : ∀ incident ∈ tables.incidents, incident.status = .closed) (dateAdded : ℚ) :
    (tables.createIncident dateAdded).Consistent where
  distinct := by
    intro incident hincident other hother hid
    rcases mem_append.mp hincident with hincident | hincident <;>
      rcases mem_append.mp hother with hother | hother
    · exact h.distinct incident hincident other hother hid
    · rw [mem_singleton.mp hother] at hid
      exact absurd hid (h.id_lt incident hincident).ne
    · rw [mem_singleton.mp hincident] at hid
      exact absurd hid.symm (h.id_lt other hother).ne
    · rw [mem_singleton.mp hincident, mem_singleton.mp hother]
  id_lt := by
    intro incident hincident
    rcases mem_append.mp hincident with hincident | hincident
    · exact (h.id_lt incident hincident).trans (Nat.lt_succ_self _)
    · rw [mem_singleton.mp hincident]
      exact Nat.lt_succ_self _
  incidentId_lt := fun row hrow ↦ (h.incidentId_lt row hrow).trans (Nat.lt_succ_self _)
  oneOpen := by
    intro incident hincident other hother hopen hotherOpen
    rcases mem_append.mp hincident with hincident | hincident
    · exact absurd (hclosed incident hincident) hopen
    · rcases mem_append.mp hother with hother | hother
      · exact absurd (hclosed other hother) hotherOpen
      · rw [mem_singleton.mp hincident, mem_singleton.mp hother]

theorem Consistent.upsertTrigger (h : tables.Consistent) (incidentTrigger : IncidentTrigger)
    (hlt : incidentTrigger.incidentId < tables.nextIncidentId) :
    (tables.upsertTrigger incidentTrigger).Consistent where
  distinct := by
    exact h.distinct
  id_lt := by
    exact h.id_lt
  incidentId_lt := by
    intro row hrow
    rcases mem_upsertRow hrow with rfl | ⟨before, hbefore, hid, _⟩
    · exact hlt
    · rw [hid]
      exact h.incidentId_lt before hbefore
  oneOpen := by
    exact h.oneOpen

/-- Assumes: no other incident is open. -/
theorem Consistent.setStatus (h : tables.Consistent) {incidentId : ℕ}
    (hothers : ∀ incident ∈ tables.incidents, incident.status ≠ .closed → incident.id = incidentId)
    (status : IncidentStatus) : (tables.setStatus incidentId status).Consistent where
  distinct := by
    intro incident hincident other hother hid
    obtain ⟨before, hbefore, rfl⟩ := mem_incidents_setStatus.mp hincident
    obtain ⟨before', hbefore', rfl⟩ := mem_incidents_setStatus.mp hother
    have hsame : before.id = before'.id := by
      split_ifs at hid <;> exact hid
    rw [h.distinct before hbefore before' hbefore' hsame]
  id_lt := by
    intro incident hincident
    obtain ⟨before, hbefore, rfl⟩ := mem_incidents_setStatus.mp hincident
    have hlt := h.id_lt before hbefore
    split_ifs <;> exact hlt
  incidentId_lt := h.incidentId_lt
  oneOpen := by
    intro incident hincident other hother hopen hotherOpen
    have hid {incident : Incident}
        (hincident : incident ∈ (tables.setStatus incidentId status).incidents)
        (hopen : incident.status ≠ .closed) : ∃ before ∈ tables.incidents, before.id = incidentId ∧
          incident = { before with status := status } := by
      obtain ⟨before, hbefore, rfl⟩ := mem_incidents_setStatus.mp hincident
      split_ifs at hopen with hsame
      · exact ⟨before, hbefore, hsame, if_pos hsame⟩
      · exact absurd (hothers before hbefore hopen) hsame
    obtain ⟨before, hbefore, hsame, rfl⟩ := hid hincident hopen
    obtain ⟨before', hbefore', hsame', rfl⟩ := hid hother hotherOpen
    rw [h.distinct before hbefore before' hbefore' (hsame.trans hsame'.symm)]

theorem AgreeExcept.upsertTrigger (incidentTrigger : IncidentTrigger)
    (h : tables.AgreeExcept incidentTrigger.incidentId) :
    (tables.upsertTrigger incidentTrigger).AgreeExcept incidentTrigger.incidentId := by
  intro incident hincident hne
  have hrows := triggersOf_upsertTrigger_of_ne tables hne
  have hagrees := h incident hincident hne
  constructor
  · rw [hrows]
    exact hagrees.open_iff
  · rw [hrows]
    exact hagrees.critical_iff

/-- Assumes: no other incident is open, and all agree but one. Setting its status to one that agrees
with its triggers makes the tables well-formed. -/
theorem wellFormed_setStatus (h : tables.Consistent) {incidentId : ℕ}
    (hothers : ∀ incident ∈ tables.incidents, incident.status ≠ .closed → incident.id = incidentId)
    (hagree : tables.AgreeExcept incidentId) {status : IncidentStatus}
    (hopen : status ≠ .closed ↔ ∃ row ∈ tables.triggersOf incidentId, row.status = .active)
    (hcritical : status ≠ .closed → (status = .critical ↔ ∃ row ∈ tables.triggersOf incidentId,
      row.status = .active ∧ row.alertRuleTrigger.label = .critical)) :
    (tables.setStatus incidentId status).WellFormed where
  consistent := h.setStatus hothers status
  agrees := by
    intro incident hincident
    rw [agrees_setStatus_iff]
    obtain ⟨before, hbefore, rfl⟩ := mem_incidents_setStatus.mp hincident
    split_ifs with hsame
    · rw [← hsame] at hopen hcritical
      exact ⟨hopen, hcritical⟩
    · exact hagree before hbefore hsame

theorem severityLoop_eq_none_iff {severity : Option IncidentStatus} {labels : List TriggerLabel} :
    severityLoop severity labels = none ↔ severity = none ∧ labels = [] := by
  induction labels generalizing severity with
  | nil => simp [severityLoop]
  | cons label labels ih => cases label <;> simp [severityLoop, ih]

theorem severityLoop_ne_closed {severity : Option IncidentStatus}
    (hseverity : severity ≠ some .closed) (labels : List TriggerLabel) :
    severityLoop severity labels ≠ some .closed := by
  induction labels generalizing severity with
  | nil => exact hseverity
  | cons label labels ih =>
    cases label with
    | warning => exact ih (by simp)
    | critical => simp [severityLoop]

theorem severityLoop_eq_critical_iff (severity : Option IncidentStatus)
    (labels : List TriggerLabel) :
    severityLoop severity labels = some .critical ↔
      .critical ∈ labels ∨ severity = some .critical ∧ labels = [] := by
  induction labels generalizing severity with
  | nil => simp [severityLoop]
  | cons label labels ih => cases label <;> simp [severityLoop, ih]

def activeLabels (tables : AlertTables) (incidentId : ℕ) : List TriggerLabel :=
  ((tables.triggersOf incidentId).filter fun row ↦ row.status = .active).map
    (·.alertRuleTrigger.label)

def setSeverity (tables : AlertTables) (incidentId : ℕ) : AlertTables :=
  match severityLoop none (tables.activeLabels incidentId) with
  | none => tables
  | some severity => tables.setStatus incidentId severity

@[simp] theorem incidentTriggers_setSeverity (tables : AlertTables) (incidentId : ℕ) :
    (tables.setSeverity incidentId).incidentTriggers = tables.incidentTriggers := by
  rw [setSeverity]
  split <;> rfl

theorem wellFormed_setSeverity (h : tables.Consistent) {incidentId : ℕ}
    (hothers : ∀ incident ∈ tables.incidents, incident.status ≠ .closed → incident.id = incidentId)
    (hagree : tables.AgreeExcept incidentId)
    (hactive : ∃ row ∈ tables.triggersOf incidentId, row.status = .active) :
    (tables.setSeverity incidentId).WellFormed := by
  obtain ⟨row, hrow, hstatus⟩ := hactive
  have hlabels : tables.activeLabels incidentId ≠ [] := by
    refine ne_nil_of_mem (mem_map_of_mem (mem_filter.mpr ⟨hrow, ?_⟩))
    exact decide_eq_true hstatus
  rw [setSeverity]
  cases hseverity : severityLoop none (tables.activeLabels incidentId) with
  | none => exact absurd (severityLoop_eq_none_iff.mp hseverity).2 hlabels
  | some severity =>
    have hopen : severity ≠ .closed := by
      rintro rfl
      exact severityLoop_ne_closed (by simp) _ hseverity
    refine wellFormed_setStatus h hothers hagree (iff_of_true hopen ⟨row, hrow, hstatus⟩) ?_
    intro _
    have hcritical : severity = .critical ↔ .critical ∈ tables.activeLabels incidentId := by
      have hiff := severityLoop_eq_critical_iff none (tables.activeLabels incidentId)
      rw [hseverity] at hiff
      simpa using hiff
    rw [hcritical, activeLabels]
    simp [and_assoc]

@[simp] theorem triggersOf_setSeverity (tables : AlertTables) (incidentId id : ℕ) :
    (tables.setSeverity incidentId).triggersOf id = tables.triggersOf id := by
  rw [triggersOf, incidentTriggers_setSeverity, triggersOf]

theorem exists_mem_setSeverity (hincident : incident ∈ tables.incidents) (incidentId : ℕ) :
    ∃ after ∈ (tables.setSeverity incidentId).incidents, after.id = incident.id := by
  rw [setSeverity]
  cases severityLoop none (tables.activeLabels incidentId) with
  | none => exact ⟨incident, hincident, rfl⟩
  | some severity =>
    refine ⟨_, mem_incidents_setStatus.mpr ⟨incident, hincident, rfl⟩, ?_⟩
    split_ifs <;> rfl

def activeTriggers (tables : AlertTables) : List IncidentTrigger :=
  (tables.queryActiveIncident.map fun incident ↦ tables.triggersOf incident.id).getD []

theorem activeTriggers_of_eq_some (hquery : tables.queryActiveIncident = some incident) :
    tables.activeTriggers = tables.triggersOf incident.id := by
  rw [activeTriggers, hquery, Option.map_some, Option.getD_some]

theorem activeTriggers_of_eq_none (hquery : tables.queryActiveIncident = none) :
    tables.activeTriggers = [] := by
  rw [activeTriggers, hquery, Option.map_none, Option.getD_none]

theorem activeTriggers_setSeverity (hincident : incident ∈ tables.incidents)
    (h : (tables.setSeverity incident.id).WellFormed)
    (hactive : ∃ row ∈ tables.triggersOf incident.id, row.status = .active) :
    (tables.setSeverity incident.id).activeTriggers = tables.triggersOf incident.id := by
  obtain ⟨after, hafter, hid⟩ := exists_mem_setSeverity hincident incident.id
  have hopen : after.status ≠ .closed := by
    apply (h.agrees after hafter).open_iff.mpr
    rw [hid, triggersOf_setSeverity]
    exact hactive
  have hquery := (queryActiveIncident_eq_some_iff h.consistent).mpr ⟨hafter, hopen⟩
  rw [activeTriggers_of_eq_some hquery, hid, triggersOf_setSeverity]

section

variable (h : tables.Consistent) {incidentId : ℕ}
  (hothers : ∀ incident ∈ tables.incidents, incident.status ≠ .closed → incident.id = incidentId)

include h hothers

/-- Assumes: no other incident is open, and all agree but one. It is closed when all of its triggers
are resolved. -/
theorem wellFormed_close (hagree : tables.AgreeExcept incidentId)
    (hresolved : checkTriggersResolved (tables.triggersOf incidentId)) :
    (tables.setStatus incidentId .closed).WellFormed := by
  refine wellFormed_setStatus h hothers hagree (iff_of_false (by simp) ?_) (by simp)
  intro ⟨row, hrow, hstatus⟩
  have hrowResolved := of_decide_eq_true (List.all_eq_true.mp hresolved row hrow)
  rw [hstatus] at hrowResolved
  cases hrowResolved

theorem queryActiveIncident_close :
    (tables.setStatus incidentId .closed).queryActiveIncident = none := by
  rw [queryActiveIncident_eq_none_iff (h.setStatus hothers .closed)]
  intro incident hincident
  obtain ⟨before, hbefore, rfl⟩ := mem_incidents_setStatus.mp hincident
  split_ifs with hid
  · rfl
  · by_contra hopen
    exact hid (hothers before hbefore hopen)

end

end AlertTables

theorem exists_active_of_not_resolved (h : ¬checkTriggersResolved rows) :
    ∃ row ∈ rows, row.status = .active := by
  rw [checkTriggersResolved, all_eq_true] at h
  push Not at h
  obtain ⟨row, hrow, hstatus⟩ := h
  refine ⟨row, hrow, ?_⟩
  cases hrowStatus : row.status with
  | active => rfl
  | resolved => simp [hrowStatus] at hstatus

end Sentry.Incidents
