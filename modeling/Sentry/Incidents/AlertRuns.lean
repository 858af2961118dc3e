import Sentry.Incidents.ProcessorCoherence

/-!
# Runs of the subscription processor

Over every run of updates, every incident agrees with its triggers, and a trigger was turned only
when the latest values, as many as the threshold period of the rule, all satisfied the operator
(`subscription_run_agrees`). For the count of a trigger is at most the streak of values that satisfy
its operator (`Counted`), while an update is processed as well (`checkTriggers_spec`).
-/

namespace Sentry.Incidents

open AlertTables Library List Function

def AlertRule.Alerts (rule : AlertRule) (trigger : AlertRuleTrigger) (value : ℚ) : Prop :=
  rule.thresholdType.alertOperator value trigger.alertThreshold = true

def AlertRule.Resolves (rule : AlertRule) (trigger : AlertRuleTrigger) (value : ℚ) : Prop :=
  rule.thresholdType.resolveOperator value (rule.calculateResolveThreshold trigger) = true

/-- The latest values allowed the trigger to be turned. -/
def TurnedTrigger.Allowed (rule : AlertRule) (turned : TurnedTrigger) : Prop :=
  let trigger := turned.incidentTrigger.alertRuleTrigger
  match turned.incidentTrigger.status with
  | .active => Streak (rule.Alerts trigger) rule.thresholdPeriod turned.evaluated
  | .resolved => Streak (rule.Resolves trigger) rule.thresholdPeriod turned.evaluated

/-- The counts of a trigger are within the streaks of the values. -/
structure Counted (rule : AlertRule) (trigger : AlertRuleTrigger) (alertCount resolveCount : ℕ)
    (values : List ℚ) : Prop where
  alert : Streak (rule.Alerts trigger) alertCount values
  resolve : Streak (rule.Resolves trigger) resolveCount values

theorem Counted.zero (rule : AlertRule) (trigger : AlertRuleTrigger) (values : List ℚ) :
    Counted rule trigger 0 0 values :=
  ⟨Streak.zero _ _, Streak.zero _ _⟩

/-- The incidents agree with their triggers, and the entries of triggers are those that were
written, which was allowed. -/
structure Sound (rule : AlertRule) (s : SubscriptionState) : Prop where
  wellFormed : s.tables.WellFormed
  trigger_mem : ∀ row ∈ s.tables.incidentTriggers, row.alertRuleTrigger ∈ rule.triggers
  rows_eq : s.tables.incidentTriggers = (s.turned.map (·.incidentTrigger)).foldl upsertRow []
  allowed : ∀ turned ∈ s.turned, turned.evaluated <:+ s.evaluated ∧ turned.Allowed rule

namespace SubscriptionProcessor

variable {rule : AlertRule} {p q : SubscriptionProcessor}

/-- A processor between the checks of two triggers. -/
structure Ready (rule : AlertRule) (p : SubscriptionProcessor) : Prop where
  sound : Sound rule p.state
  incidentCoherent : p.IncidentCoherent
  triggersCoherent : p.TriggersCoherent

theorem Ready.setAlertCounts (h : p.Ready rule) (counts : ℕ → ℕ) :
    Ready rule { p with triggerAlertCounts := counts } :=
  ⟨h.sound, ⟨h.incidentCoherent.cache, h.incidentCoherent.attr⟩, h.triggersCoherent⟩

theorem Ready.setResolveCounts (h : p.Ready rule) (counts : ℕ → ℕ) :
    Ready rule { p with triggerResolveCounts := counts } :=
  ⟨h.sound, ⟨h.incidentCoherent.cache, h.incidentCoherent.attr⟩, h.triggersCoherent⟩

theorem Ready.of_reads (h : p.Ready rule) (hreads : Reads p q) : q.Ready rule := by
  refine ⟨?_, hreads.incidentCoherent, hreads.triggersCoherent⟩
  constructor
  · rw [hreads.tables_eq]
    exact h.sound.wellFormed
  · rw [hreads.tables_eq]
    exact h.sound.trigger_mem
  · rw [hreads.tables_eq, hreads.turned_eq]
    exact h.sound.rows_eq
  · rw [hreads.turned_eq, hreads.keepsCounts.evaluated]
    exact h.sound.allowed

/-- Assumes: a trigger of the rule is turned, and the latest values allow it. -/
theorem Ready.of_turns (h : p.Ready rule) {incidentTrigger : IncidentTrigger}
    (hturns : Turns p incidentTrigger q) (hmem : incidentTrigger.alertRuleTrigger ∈ rule.triggers)
    (hallowed : TurnedTrigger.Allowed rule ⟨incidentTrigger, p.state.evaluated⟩) :
    q.Ready rule := by
  refine ⟨⟨hturns.wellFormed, ?_, ?_, ?_⟩, hturns.incidentCoherent, hturns.triggersCoherent⟩
  · rw [hturns.incidentTriggers_eq]
    intro row hrow
    rcases mem_upsertRow hrow with rfl | ⟨before, hbefore, _, htrigger⟩
    · exact hmem
    · rw [htrigger]
      exact h.sound.trigger_mem before hbefore
  · rw [hturns.incidentTriggers_eq, hturns.turned_eq, map_append, foldl_append, ← h.sound.rows_eq]
    rfl
  · rw [hturns.turned_eq, hturns.keepsCounts.evaluated]
    intro turned hturned
    rcases mem_append.mp hturned with hturned | hturned
    · exact h.sound.allowed turned hturned
    · rw [mem_singleton.mp hturned]
      exact ⟨suffix_refl _, hallowed⟩

/-- The alert threshold of a trigger is checked: its count is within the streak of the values. -/
structure AlertChecked (rule : AlertRule) (values : List ℚ) (trigger : AlertRuleTrigger)
    (p q : SubscriptionProcessor) : Prop where
  ready : q.Ready rule
  keepsStats : KeepsStats p q
  triggerResolveCounts : q.triggerResolveCounts = p.triggerResolveCounts
  of_ne : ∀ id ≠ trigger.id, q.triggerAlertCounts id = p.triggerAlertCounts id
  streak : Streak (rule.Alerts trigger) (q.triggerAlertCounts trigger.id) values

variable {values past : List ℚ} {value : ℚ} {trigger : AlertRuleTrigger}

theorem alertChecked_setCount (h : q.Ready rule) (hstats : KeepsStats p q)
    (hresolve : q.triggerResolveCounts = p.triggerResolveCounts)
    (halert : ∀ id ≠ trigger.id, q.triggerAlertCounts id = p.triggerAlertCounts id) {count : ℕ}
    (hstreak : Streak (rule.Alerts trigger) count values) :
    AlertChecked rule values trigger p
      { q with triggerAlertCounts := Function.update q.triggerAlertCounts trigger.id count } := by
  refine ⟨h.setAlertCounts _, { hstats with }, hresolve, ?_, ?_⟩
  · intro id hid
    rw [← halert id hid]
    exact update_of_ne hid _ _
  · show Streak _ (Function.update q.triggerAlertCounts trigger.id count trigger.id) _
    rwa [update_self]

theorem alertChecked_reset (h : q.Ready rule) (hcounts : KeepsCounts p q) :
    AlertChecked rule values trigger p
      { q with triggerAlertCounts := Function.update q.triggerAlertCounts trigger.id 0 } :=
  alertChecked_setCount h hcounts.toKeepsStats hcounts.triggerResolveCounts
    (fun id _ ↦ congrFun hcounts.triggerAlertCounts id) (Streak.zero _ _)

theorem AlertChecked.of_keepsCounts {r : SubscriptionProcessor}
    (h : AlertChecked rule values trigger q r) (hcounts : KeepsCounts p q) :
    AlertChecked rule values trigger p r where
  ready := h.ready
  keepsStats := hcounts.toKeepsStats.trans h.keepsStats
  triggerResolveCounts := h.triggerResolveCounts.trans hcounts.triggerResolveCounts
  of_ne id hid := by rw [h.of_ne id hid, hcounts.triggerAlertCounts]
  streak := h.streak

theorem triggerAlertThreshold_spec (h : p.Ready rule) (htrigger : trigger ∈ rule.triggers)
    (hevaluated : p.state.evaluated = value :: past) (hvalue : rule.Alerts trigger value)
    (hstreak : Streak (rule.Alerts trigger) (p.triggerAlertCounts trigger.id) past)
    (update : QuerySubscriptionUpdate) :
    AlertChecked rule (value :: past) trigger p (p.triggerAlertThreshold rule trigger update) := by
  have hcount := hstreak.cons hvalue
  have hcounted := alertChecked_setCount h (KeepsStats.refl p) rfl (fun _ _ ↦ rfl) hcount
  rw [triggerAlertThreshold]
  split_ifs with hlimited hperiod
  · exact hcounted
  · generalize { p with
      triggerAlertCounts :=
        Function.update p.triggerAlertCounts trigger.id (p.triggerAlertCounts trigger.id + 1) } = q
      at hcounted
    obtain ⟨incidentId, hturns⟩ := activateTrigger_spec hcounted.ready.sound.wellFormed
      hcounted.ready.incidentCoherent hcounted.ready.triggersCoherent trigger
      (update.dateAdded trigger.id)
    have hallowed : TurnedTrigger.Allowed rule ⟨⟨incidentId, trigger, .active⟩,
        q.state.evaluated⟩ := by
      rw [hcounted.keepsStats.evaluated, hevaluated]
      exact hcount.mono hperiod
    refine alertChecked_setCount (hcounted.ready.of_turns hturns htrigger hallowed)
      (hcounted.keepsStats.trans hturns.keepsCounts.toKeepsStats) ?_ ?_ (Streak.zero _ _)
    · rw [hturns.keepsCounts.triggerResolveCounts, hcounted.triggerResolveCounts]
    · intro id hid
      rw [hturns.keepsCounts.triggerAlertCounts, hcounted.of_ne id hid]
  · exact hcounted

theorem checkAlert_spec (h : p.Ready rule) (htrigger : trigger ∈ rule.triggers)
    (hevaluated : p.state.evaluated = value :: past)
    (hstreak : Streak (rule.Alerts trigger) (p.triggerAlertCounts trigger.id) past)
    (update : QuerySubscriptionUpdate) :
    AlertChecked rule (value :: past) trigger p (checkAlert rule update value p trigger) := by
  rw [checkAlert]
  split_ifs with hvalue
  · obtain ⟨-, hreads⟩ := checkTriggerMatchesStatus_spec h.incidentCoherent h.triggersCoherent
      trigger .active
    generalize p.checkTriggerMatchesStatus trigger .active = read at hreads
    obtain ⟨isActive, q⟩ := read
    have hready := h.of_reads hreads
    have hcounts := hreads.keepsCounts
    cases isActive with
    | false =>
      have hspec := triggerAlertThreshold_spec hready htrigger
        (hcounts.evaluated.trans hevaluated) hvalue
        (by rwa [hcounts.triggerAlertCounts]) update
      exact hspec.of_keepsCounts hcounts
    | true => exact alertChecked_reset hready hcounts
  · exact alertChecked_reset h (KeepsCounts.refl p)

/-- The resolve threshold of a trigger is checked: its count is within the streak of the values. -/
structure ResolveChecked (rule : AlertRule) (values : List ℚ) (trigger : AlertRuleTrigger)
    (p q : SubscriptionProcessor) : Prop where
  ready : q.Ready rule
  keepsStats : KeepsStats p q
  triggerAlertCounts : q.triggerAlertCounts = p.triggerAlertCounts
  of_ne : ∀ id ≠ trigger.id, q.triggerResolveCounts id = p.triggerResolveCounts id
  streak : Streak (rule.Resolves trigger) (q.triggerResolveCounts trigger.id) values

theorem resolveChecked_setCount (h : q.Ready rule) (hstats : KeepsStats p q)
    (halert : q.triggerAlertCounts = p.triggerAlertCounts)
    (hresolve : ∀ id ≠ trigger.id, q.triggerResolveCounts id = p.triggerResolveCounts id)
    {count : ℕ} (hstreak : Streak (rule.Resolves trigger) count values) :
    ResolveChecked rule values trigger p
      { q with
        triggerResolveCounts := Function.update q.triggerResolveCounts trigger.id count } := by
  refine ⟨h.setResolveCounts _, { hstats with }, halert, ?_, ?_⟩
  · intro id hid
    rw [← hresolve id hid]
    exact update_of_ne hid _ _
  · show Streak _ (Function.update q.triggerResolveCounts trigger.id count trigger.id) _
    rwa [update_self]

theorem resolveChecked_reset (h : q.Ready rule) (hcounts : KeepsCounts p q) :
    ResolveChecked rule values trigger p
      { q with triggerResolveCounts := Function.update q.triggerResolveCounts trigger.id 0 } :=
  resolveChecked_setCount h hcounts.toKeepsStats hcounts.triggerAlertCounts
    (fun id _ ↦ congrFun hcounts.triggerResolveCounts id) (Streak.zero _ _)

theorem ResolveChecked.of_keepsCounts {r : SubscriptionProcessor}
    (h : ResolveChecked rule values trigger q r) (hcounts : KeepsCounts p q) :
    ResolveChecked rule values trigger p r where
  ready := h.ready
  keepsStats := hcounts.toKeepsStats.trans h.keepsStats
  triggerAlertCounts := h.triggerAlertCounts.trans hcounts.triggerAlertCounts
  of_ne id hid := by rw [h.of_ne id hid, hcounts.triggerResolveCounts]
  streak := h.streak

section

variable (h : p.Ready rule) (htrigger : trigger ∈ rule.triggers)

include h htrigger

theorem Ready.alertRuleTrigger_eq {incidentTrigger : IncidentTrigger}
    (hentry : getTrigger p.state.tables.activeTriggers trigger = some incidentTrigger) :
    incidentTrigger.alertRuleTrigger = trigger := by
  obtain ⟨incident, -, hmem, -⟩ := exists_of_getTrigger_activeTriggers hentry
  have hrow := h.sound.trigger_mem incidentTrigger (mem_filter.mp hmem).1
  exact inj_on_of_nodup_map rule.nodup hrow htrigger (id_eq_of_getTrigger hentry)

/-- Assumes: the trigger is active. -/
theorem triggerResolveThreshold_spec
    (hactive : (getTrigger p.state.tables.activeTriggers trigger).isSome)
    (hevaluated : p.state.evaluated = value :: past) (hvalue : rule.Resolves trigger value)
    (hstreak : Streak (rule.Resolves trigger) (p.triggerResolveCounts trigger.id) past) :
    ResolveChecked rule (value :: past) trigger p (p.triggerResolveThreshold rule trigger) := by
  have hcount := hstreak.cons hvalue
  have hcounted := resolveChecked_setCount h (KeepsStats.refl p) rfl (fun _ _ ↦ rfl) hcount
  obtain ⟨incidentTrigger, hentry⟩ := Option.isSome_iff_exists.mp hactive
  rw [triggerResolveThreshold]
  split_ifs with hperiod
  · have hturns := resolveTrigger_spec hcounted.ready.sound.wellFormed
      hcounted.ready.incidentCoherent hcounted.ready.triggersCoherent hentry
    have htriggerEq := h.alertRuleTrigger_eq htrigger hentry
    generalize p.triggerResolveCounts trigger.id + 1 = count at hcounted hturns hcount hperiod
    generalize { p with
      triggerResolveCounts := Function.update p.triggerResolveCounts trigger.id count } = q
      at hcounted hturns
    have hallowed : TurnedTrigger.Allowed rule ⟨{ incidentTrigger with status := .resolved },
        q.state.evaluated⟩ := by
      rw [hcounted.keepsStats.evaluated, hevaluated, htriggerEq]
      exact hcount.mono hperiod
    have hmem : incidentTrigger.alertRuleTrigger ∈ rule.triggers := by rwa [htriggerEq]
    refine resolveChecked_setCount (hcounted.ready.of_turns hturns hmem hallowed)
      (hcounted.keepsStats.trans hturns.keepsCounts.toKeepsStats) ?_ ?_ (Streak.zero _ _)
    · rw [hturns.keepsCounts.triggerAlertCounts, hcounted.triggerAlertCounts]
    · intro id hid
      rw [hturns.keepsCounts.triggerResolveCounts, hcounted.of_ne id hid]
  · exact hcounted

theorem checkResolve_spec (hevaluated : p.state.evaluated = value :: past)
    (hstreak : Streak (rule.Resolves trigger) (p.triggerResolveCounts trigger.id) past) :
    ResolveChecked rule (value :: past) trigger p (checkResolve rule value p trigger) := by
  rw [checkResolve]
  split_ifs with hvalue
  · obtain ⟨-, hwrites⟩ := activeIncident_spec h.incidentCoherent
    have hreads := hwrites.reads h.triggersCoherent
    generalize p.activeIncident = read at hreads
    obtain ⟨found, q⟩ := read
    have hready := h.of_reads hreads
    have hcounts := hreads.keepsCounts
    cases found with
    | none => exact resolveChecked_reset hready hcounts
    | some incident =>
      obtain ⟨hmatches, hreads'⟩ := checkTriggerMatchesStatus_spec hready.incidentCoherent
        hready.triggersCoherent trigger .active
      rw [← hreads'.tables_eq] at hmatches
      dsimp only
      generalize q.checkTriggerMatchesStatus trigger .active = read at hmatches hreads'
      obtain ⟨isActive, r⟩ := read
      have hready' := hready.of_reads hreads'
      have hcounts' := hcounts.trans hreads'.keepsCounts
      cases isActive with
      | true =>
        have hentry : (getTrigger r.state.tables.activeTriggers trigger).isSome :=
          Option.isSome_of_any hmatches.symm
        have hspec := triggerResolveThreshold_spec hready' htrigger hentry
          (hcounts'.evaluated.trans hevaluated) hvalue (by rwa [hcounts'.triggerResolveCounts])
        exact hspec.of_keepsCounts hcounts'
      | false => exact resolveChecked_reset hready' hcounts'
  · exact resolveChecked_reset h (KeepsCounts.refl p)

end

/-- While the triggers are checked, the counts of the remaining ones are about the values before the
update, and the counts of the others about its value as well. -/
structure InProgress (rule : AlertRule) (value : ℚ) (past : List ℚ)
    (remaining : List AlertRuleTrigger) (p : SubscriptionProcessor) : Prop where
  ready : p.Ready rule
  evaluated : p.state.evaluated = value :: past
  counted : ∀ trigger ∈ rule.triggers,
    Counted rule trigger (p.triggerAlertCounts trigger.id) (p.triggerResolveCounts trigger.id)
      (if trigger ∈ remaining then past else value :: past)

theorem InProgress.counted_of_nil (h : InProgress rule value past [] p) :
    ∀ trigger ∈ rule.triggers, Counted rule trigger (p.triggerAlertCounts trigger.id)
      (p.triggerResolveCounts trigger.id) p.state.evaluated := by
  intro trigger htrigger
  rw [h.evaluated]
  have hcounted := h.counted trigger htrigger
  rwa [if_neg not_mem_nil] at hcounted

theorem checkTrigger_spec {rest : List AlertRuleTrigger}
    (h : InProgress rule value past (trigger :: rest) p) (htrigger : trigger ∈ rule.triggers)
    (hrest : trigger ∉ rest) (update : QuerySubscriptionUpdate) :
    InProgress rule value past rest (checkTrigger rule update value p trigger) ∧
      KeepsStats p (checkTrigger rule update value p trigger) := by
  have hcounted := h.counted trigger htrigger
  rw [if_pos mem_cons_self] at hcounted
  have halert := checkAlert_spec h.ready htrigger h.evaluated hcounted.alert update
  have hresolve := checkResolve_spec halert.ready htrigger
    (halert.keepsStats.evaluated.trans h.evaluated)
    (by
      rw [halert.triggerResolveCounts]
      exact hcounted.resolve)
  have hstats := halert.keepsStats.trans hresolve.keepsStats
  refine ⟨⟨hresolve.ready, hstats.evaluated.trans h.evaluated, ?_⟩, hstats⟩
  intro other hother
  by_cases hsame : other = trigger
  · subst hsame
    rw [if_neg hrest]
    refine ⟨?_, hresolve.streak⟩
    rw [checkTrigger, hresolve.triggerAlertCounts]
    exact halert.streak
  · have hid : other.id ≠ trigger.id := fun hid ↦
      hsame (inj_on_of_nodup_map rule.nodup hother htrigger hid)
    have hkept := h.counted other hother
    simp only [mem_cons, hsame, false_or] at hkept
    rw [checkTrigger, hresolve.triggerAlertCounts, halert.of_ne other.id hid,
      hresolve.of_ne other.id hid, halert.triggerResolveCounts]
    exact hkept

theorem checkTriggers_spec {remaining : List AlertRuleTrigger}
    (h : InProgress rule value past remaining p)
    (hmem : ∀ trigger ∈ remaining, trigger ∈ rule.triggers)
    (hnodup : remaining.Nodup) (update : QuerySubscriptionUpdate) :
    InProgress rule value past [] (remaining.foldl (checkTrigger rule update value) p) ∧
      KeepsStats p (remaining.foldl (checkTrigger rule update value) p) := by
  induction remaining generalizing p with
  | nil => exact ⟨h, KeepsStats.refl p⟩
  | cons trigger rest ih =>
    obtain ⟨hrest, hnodupRest⟩ := nodup_cons.mp hnodup
    obtain ⟨hstep, hstats⟩ :=
      checkTrigger_spec h (hmem trigger mem_cons_self) hrest update
    obtain ⟨hdone, hstatsRest⟩ := ih hstep
      (fun other hother ↦ hmem other (mem_cons_of_mem _ hother)) hnodupRest
    exact ⟨hdone, hstats.trans hstatsRest⟩

end SubscriptionProcessor

open SubscriptionProcessor

/-- The state between two updates. -/
structure SubscriptionInvariant (rule : AlertRule) (s : SubscriptionState) : Prop where
  sound : Sound rule s
  cache : ∀ incident, s.activeIncidentCache = some incident →
    incident = s.tables.queryActiveIncident
  counted : ∀ trigger ∈ rule.triggers, Counted rule trigger (s.stats.triggerAlertCounts trigger.id)
    (s.stats.triggerResolveCounts trigger.id) s.evaluated

theorem subscriptionInvariant_init (rule : AlertRule) :
    SubscriptionInvariant rule (subscription rule).init := by
  have hempty : (subscription rule).init.tables = ⟨[], [], 1⟩ := rfl
  have hwellFormed : (subscription rule).init.tables.WellFormed := by
    rw [hempty]
    exact ⟨⟨by simp, by simp, by simp, by simp⟩, by simp⟩
  refine ⟨⟨hwellFormed, ?_, rfl, ?_⟩, ?_, fun trigger _ ↦ Counted.zero rule trigger _⟩
  · intro row hrow
    cases hrow
  · intro turned hturned
    cases hturned
  · intro incident hincident
    cases hincident

theorem updateAlertRuleStats_stats {p : SubscriptionProcessor}
    (halert : p.state.stats.triggerAlertCounts = p.origTriggerAlertCounts)
    (hresolve : p.state.stats.triggerResolveCounts = p.origTriggerResolveCounts) :
    p.updateAlertRuleStats.state.stats.triggerAlertCounts = p.triggerAlertCounts ∧
      p.updateAlertRuleStats.state.stats.triggerResolveCounts = p.triggerResolveCounts := by
  constructor
  · ext triggerId
    simp only [updateAlertRuleStats, halert]
    split_ifs with hchanged
    · rfl
    · exact (not_not.mp hchanged).symm
  · ext triggerId
    simp only [updateAlertRuleStats, hresolve]
    split_ifs with hchanged
    · rfl
    · exact (not_not.mp hchanged).symm

theorem SubscriptionInvariant.ready {rule : AlertRule} {s : SubscriptionState}
    (h : SubscriptionInvariant rule s) : (init s).Ready rule := by
  refine ⟨h.sound, ⟨h.cache, ?_⟩, ?_⟩
  · intro incident hattr
    cases hattr
  · intro incidentTriggers hattr
    cases hattr

/-- Assumes: the processor is ready, its counts are within the streaks, and the statistics are as it
loaded them. Saving the statistics restores the invariant. -/
theorem subscriptionInvariant_updateAlertRuleStats {rule : AlertRule} {p : SubscriptionProcessor}
    (h : p.Ready rule) (halert : p.state.stats.triggerAlertCounts = p.origTriggerAlertCounts)
    (hresolve : p.state.stats.triggerResolveCounts = p.origTriggerResolveCounts)
    (hcounted : ∀ trigger ∈ rule.triggers, Counted rule trigger (p.triggerAlertCounts trigger.id)
      (p.triggerResolveCounts trigger.id) p.state.evaluated) :
    SubscriptionInvariant rule p.updateAlertRuleStats.state := by
  obtain ⟨halertStats, hresolveStats⟩ := updateAlertRuleStats_stats halert hresolve
  refine ⟨⟨h.sound.wellFormed, h.sound.trigger_mem, h.sound.rows_eq, h.sound.allowed⟩,
    h.incidentCoherent.cache, ?_⟩
  rw [halertStats, hresolveStats]
  exact hcounted

theorem SubscriptionInvariant.inProgress {rule : AlertRule} {s : SubscriptionState}
    (h : SubscriptionInvariant rule s) (timestamp value : ℚ) :
    InProgress rule value s.evaluated rule.sortedTriggers
      { init s with
        lastUpdate := timestamp
        state := { s with evaluated := value :: s.evaluated } } := by
  obtain ⟨-, ⟨hcache, hattr⟩, htriggers⟩ := h.ready
  refine ⟨⟨⟨h.sound.wellFormed, h.sound.trigger_mem, h.sound.rows_eq, ?_⟩, ⟨hcache, hattr⟩,
    htriggers⟩, rfl, ?_⟩
  · intro turned hturned
    obtain ⟨hsuffix, hallowed⟩ := h.sound.allowed turned hturned
    exact ⟨hsuffix.trans (suffix_cons value s.evaluated), hallowed⟩
  · intro trigger htrigger
    have hmem : trigger ∈ rule.sortedTriggers := (mem_insertionSort _).mpr htrigger
    rw [if_pos hmem]
    exact h.counted trigger htrigger

theorem subscriptionInvariant_processUpdate {rule : AlertRule} {s : SubscriptionState}
    (h : SubscriptionInvariant rule s) (update : QuerySubscriptionUpdate) :
    SubscriptionInvariant rule (processUpdate rule s update) := by
  rw [processUpdate]
  by_cases hignored : ignoresUpdate rule update
  · rwa [if_pos hignored]
  rw [if_neg hignored]
  by_cases holder : update.timestamp ≤ (init s).lastUpdate
  · rwa [if_pos holder]
  rw [if_neg holder]
  cases getAggregationValue rule update with
  | none =>
    split_ifs
    · have hready := h.ready
      exact subscriptionInvariant_updateAlertRuleStats ⟨hready.sound,
        ⟨hready.incidentCoherent.cache, hready.incidentCoherent.attr⟩, hready.triggersCoherent⟩
        rfl rfl (fun trigger _ ↦ Counted.zero rule trigger _)
    · exact h
  | some value =>
    have hnodup : rule.sortedTriggers.Nodup :=
      ((perm_insertionSort _ rule.triggers).nodup_iff).mpr (List.Nodup.of_map _ rule.nodup)
    obtain ⟨hdone, hstats⟩ := checkTriggers_spec (h.inProgress update.timestamp value)
      (fun trigger htrigger ↦ (mem_insertionSort _).mp htrigger) hnodup update
    have halert := congrArg AlertRuleStats.triggerAlertCounts hstats.stats
    have hresolve := congrArg AlertRuleStats.triggerResolveCounts hstats.stats
    exact subscriptionInvariant_updateAlertRuleStats hdone.ready
      (halert.trans hstats.origTriggerAlertCounts.symm)
      (hresolve.trans hstats.origTriggerResolveCounts.symm)
      hdone.counted_of_nil

/-- Over every run of updates, every incident agrees with its triggers: it is open exactly while one
of them is active, and critical exactly while a critical one is. The entries of the triggers are
those that were written, and a trigger was turned only when the latest values of the history
allowed it. -/
theorem subscription_run_agrees (rule : AlertRule) (updates : List QuerySubscriptionUpdate) :
    let s := (subscription rule).run updates
    (∀ incident ∈ s.tables.incidents, s.tables.Agrees incident) ∧
      s.tables.incidentTriggers = (s.turned.map (·.incidentTrigger)).foldl upsertRow [] ∧
      ∀ turned ∈ s.turned, turned.evaluated <:+ s.evaluated ∧ turned.Allowed rule := by
  have h : SubscriptionInvariant rule ((subscription rule).run updates) :=
    (subscription rule).run_invariant (subscriptionInvariant_init rule)
      (fun s update h ↦ subscriptionInvariant_processUpdate h update) updates
  exact ⟨h.sound.wellFormed.agrees, h.sound.rows_eq, h.sound.allowed⟩

/-- Over every run of updates there is at most one open incident, the incident in the cache is that
one, and the counts of a trigger are within the latest streaks of values. -/
theorem subscription_run_coherent (rule : AlertRule) (updates : List QuerySubscriptionUpdate) :
    let s := (subscription rule).run updates
    (∀ incident ∈ s.tables.incidents, ∀ other ∈ s.tables.incidents,
      incident.status ≠ .closed → other.status ≠ .closed → incident = other) ∧
      (∀ cached, s.activeIncidentCache = some cached → ∀ incident,
        cached = some incident ↔ incident ∈ s.tables.incidents ∧ incident.status ≠ .closed) ∧
      ∀ trigger ∈ rule.triggers, Counted rule trigger (s.stats.triggerAlertCounts trigger.id)
        (s.stats.triggerResolveCounts trigger.id) s.evaluated := by
  have h : SubscriptionInvariant rule ((subscription rule).run updates) :=
    (subscription rule).run_invariant (subscriptionInvariant_init rule)
      (fun s update h ↦ subscriptionInvariant_processUpdate h update) updates
  have hconsistent := h.sound.wellFormed.consistent
  refine ⟨hconsistent.oneOpen, fun cached hcached incident ↦ ?_, h.counted⟩
  rw [h.cache cached hcached]
  exact queryActiveIncident_eq_some_iff hconsistent

def twoInARow : AlertRule where
  dataset := .events
  thresholdType := .above
  resolveThreshold := none
  thresholdPeriod := 2
  comparisonDelta := none
  triggers := [⟨1, .critical, 100⟩]
  nodup := by decide

def valueAt (timestamp value : ℚ) : QuerySubscriptionUpdate where
  timestamp := timestamp
  value := some value
  totalSessionCount := 0
  crashCount := 0
  comparisonAggregate := none
  projectExists := true
  hasIncidents := true
  hasPerformanceView := true
  laterElsewhere := fun _ ↦ false
  now := fun _ ↦ timestamp
  dateAdded := fun _ ↦ timestamp

-- the second value over the threshold opens an incident, and the second one below closes it
example : ((subscription twoInARow).run [valueAt 60 200, valueAt 120 200]).tables.incidents =
    [⟨1, .critical, 120⟩] := by
  decide +kernel

example : ((subscription twoInARow).run [valueAt 60 200, valueAt 120 200, valueAt 180 50,
    valueAt 240 50]).tables.incidents = [⟨1, .closed, 120⟩] := by
  decide +kernel

end Sentry.Incidents
