import Sentry.Rules.GroupRuleStatuses

/-!
# Delayed rules that fire

`fire_rules` of `rules/processing/delayed_processing.py`. For every group of a rule that has an
event, the status of the rule is checked and updated, and its actions are activated. Where a rule
was active too recently for a group, or its row is not updated, the loop over the groups ends. So
the actions are activated for the groups up to the first that does not fire
(`fireGroups_eq_takeWhile`), and not for all that do (`fireRules_iff`).
-/

namespace Sentry.Rules

open Library List

section TakeWhile

variable {α : Type*} {p q : α → Bool} {l : List α}

theorem takeWhile_congr (h : ∀ x ∈ l, p x = q x) : l.takeWhile p = l.takeWhile q := by
  induction l with
  | nil => rfl
  | cons x l ih =>
    rw [forall_mem_cons] at h
    rw [takeWhile_cons, takeWhile_cons, h.1, ih h.2]

theorem forall_mem_takeWhile_iff {P : α → Prop} (hp : ∀ x ∈ l, p x = true → P x) (hnodup : l.Nodup)
    : (∀ x ∈ l, (x ∈ l.takeWhile p ↔ P x)) ↔
      (∀ x ∈ l, P x → p x = true) ∧ l.Pairwise fun x y ↦ P y → P x := by
  induction l with
  | nil => simp
  | cons x l ih =>
    rw [forall_mem_cons] at hp
    rw [nodup_cons] at hnodup
    by_cases hx : p x = true
    · have hP := hp.1 hx
      have hrest : (∀ y ∈ l, (y ∈ x :: l.takeWhile p ↔ P y)) ↔
          ∀ y ∈ l, (y ∈ l.takeWhile p ↔ P y) := by
        refine forall₂_congr fun y hy ↦ ?_
        rw [mem_cons, or_iff_right fun heq : y = x ↦ hnodup.1 (heq ▸ hy)]
      rw [takeWhile_cons_of_pos hx, forall_mem_cons, forall_mem_cons,
        pairwise_cons, hrest, ih hp.2 hnodup.2]
      simp [hx, hP]
    · rw [takeWhile_cons_of_neg hx, forall_mem_cons, forall_mem_cons, pairwise_cons]
      constructor
      · rintro ⟨hfirst, hnone⟩
        have hnot : ¬ P x := fun hP ↦ absurd (hfirst.mpr hP) not_mem_nil
        have hnots : ∀ y ∈ l, ¬ P y := fun y hy hP ↦ absurd ((hnone y hy).mpr hP) not_mem_nil
        refine ⟨⟨fun hP ↦ absurd hP hnot, fun y hy hP ↦ absurd hP (hnots y hy)⟩,
          fun y hy hP ↦ absurd hP (hnots y hy), ?_⟩
        exact pairwise_of_forall_mem_list fun y _ z hz hP ↦ absurd hP (hnots z hz)
      · rintro ⟨⟨hfirst, -⟩, hbefore, -⟩
        have hnot : ¬ P x := fun hP ↦ hx (hfirst hP)
        refine ⟨iff_of_false not_mem_nil hnot, fun y hy ↦ ?_⟩
        exact iff_of_false not_mem_nil fun hP ↦ hnot (hbefore y hy hP)

end TakeWhile

/-- The data of an instance of a rule and a group. -/
structure InstanceData where
  eventId : Option Str
  occurrenceId : Option Str

/-- `GroupEvent` -/
structure GroupEvent (Event Occurrence : Type*) where
  event : Event
  groupId : ℕ
  occurrence : Option Occurrence
  deriving DecidableEq

/-- What `get_group_to_groupevent` fetches: the groups that exist, and the events and occurrences of
the project by their ids. -/
structure Fetches (Event Occurrence : Type*) where
  groups : List ℕ
  events : Str → Option Event
  occurrences : Str → Option Occurrence

variable {Event Occurrence Action : Type*}

/-- `build_group_to_groupevent`: the last event of a group counts, for whichever rule. -/
def buildGroupToGroupevent (parsedRulegroupToEventData : List ((ℕ × ℕ) × InstanceData))
    (bulkEventIdToEvents : Str → Option Event)
    (bulkOccurrenceIdToOccurrence : Str → Option Occurrence) (groupIds : List ℕ) :
    List (ℕ × GroupEvent Event Occurrence) :=
  parsedRulegroupToEventData.foldl (fun groupToGroupevent item ↦
    match item.2.eventId.bind bulkEventIdToEvents with
    | none => groupToGroupevent
    | some event =>
      if item.1.2 ∈ groupIds then
        setItem item.1.2 ⟨event, item.1.2,
          (item.2.occurrenceId.filter (· ≠ [])).bind bulkOccurrenceIdToOccurrence⟩
          groupToGroupevent
      else groupToGroupevent) []

/-- `get_group_to_groupevent` -/
def getGroupToGroupevent (fetches : Fetches Event Occurrence)
    (parsedRulegroupToEventData : List ((ℕ × ℕ) × InstanceData)) (groupIds : List ℕ) :
    List (ℕ × GroupEvent Event Occurrence) :=
  buildGroupToGroupevent parsedRulegroupToEventData fetches.events fetches.occurrences
    (fetches.groups.filter fun groupId ↦ groupId ∈ groupIds)

theorem mem_setItem_event {d : List (ℕ × GroupEvent Event Occurrence)} {groupId : ℕ}
    (h : ∀ item ∈ d, item.2.groupId = item.1) (event : Event) (occurrence : Option Occurrence) :
    ∀ item ∈ setItem groupId ⟨event, groupId, occurrence⟩ d, item.2.groupId = item.1 := by
  intro item hitem
  rcases eq_or_mem_of_mem_setItem hitem with rfl | hmem
  · rfl
  · exact h item hmem

theorem nodup_groups (fetches : Fetches Event Occurrence)
    (parsedRulegroupToEventData : List ((ℕ × ℕ) × InstanceData)) (groupIds : List ℕ) :
    ((getGroupToGroupevent fetches parsedRulegroupToEventData groupIds).map Prod.fst).Nodup ∧
      ∀ item ∈ getGroupToGroupevent fetches parsedRulegroupToEventData groupIds,
        item.2.groupId = item.1 := by
  unfold getGroupToGroupevent buildGroupToGroupevent
  generalize fetches.groups.filter _ = available
  refine foldlRecOn (motive := fun d : List (ℕ × GroupEvent Event Occurrence) ↦
    (d.map Prod.fst).Nodup ∧ ∀ item ∈ d, item.2.groupId = item.1)
    parsedRulegroupToEventData _ ⟨nodup_nil, by simp⟩ ?_
  intro groupToGroupevent hd item _
  cases item.2.eventId.bind fetches.events with
  | none => exact hd
  | some event =>
    by_cases hgroup : item.1.2 ∈ available
    · simp only [hgroup, if_true]
      exact ⟨nodup_keys_setItem hd.1 _ _, mem_setItem_event hd.2 event _⟩
    · simp only [hgroup, if_false]
      exact hd

/-- `freq_offset` -/
def freqOffset (now : ℚ) (rule : Rule Action) : ℚ :=
  now - (if rule.frequency.getD 0 = 0 then defaultFrequency else rule.frequency.getD 0 : ℕ)

/-- The loop of `fire_rules` over the groups of a rule, with the events for which the actions are
activated; `none` is a `KeyError`. -/
def fireGroups (now : ℚ) (alertRules : List (Rule Action)) (rule : Rule Action) :
    StatusStore → List (ℕ × GroupEvent Event Occurrence) →
      Option (StatusStore × List (GroupEvent Event Occurrence))
  | store, [] => some (store, [])
  | store, (group, groupevent) :: rest =>
    let (ruleStatuses, store) := store.bulkGetRuleStatus (alertRules.map Rule.id) group
    match getItem ruleStatuses rule.id with
    | none => none
    | some status =>
      if ∀ lastActive ∈ status.lastActive, lastActive ≤ freqOffset now rule then
        let (updated, store) := store.updateLastActive status.id (freqOffset now rule) now
        if updated = 0 then some (store, [])
        else
          (fireGroups now alertRules rule store rest).map fun (store, activated) ↦
            (store, groupevent :: activated)
      else some (store, [])

/-- `fire_rules`, with the rules whose actions are activated and the events. -/
def fireRules (fetches : Fetches Event Occurrence) (now : ℚ)
    (parsedRulegroupToEventData : List ((ℕ × ℕ) × InstanceData)) (alertRules : List (Rule Action)) :
    StatusStore → List (Rule Action × List ℕ) →
      Option (StatusStore × List (Rule Action × GroupEvent Event Occurrence))
  | store, [] => some (store, [])
  | store, (rule, groupIds) :: rest =>
    (fireGroups now alertRules rule store
      (getGroupToGroupevent fetches parsedRulegroupToEventData groupIds)).bind
      fun (store, activated) ↦
        (fireRules fetches now parsedRulegroupToEventData alertRules store rest).map
          fun (store, activatedAfter) ↦
            (store, activated.map (fun groupevent ↦ (rule, groupevent)) ++ activatedAfter)

def StatusStore.Fires (store : StatusStore) (pair : ℕ × ℕ) (time : ℚ) : Prop :=
  store.LastActiveBy pair time ∧ store.Kept pair

instance (store : StatusStore) (pair : ℕ × ℕ) (time : ℚ) : Decidable (store.Fires pair time) :=
  inferInstanceAs (Decidable (_ ∧ _))

theorem StatusStore.SameExcept.fires {changed : ℕ × ℕ → Prop} {store store' : StatusStore}
    (h : StatusStore.SameExcept changed store store') {pair : ℕ × ℕ} (hpair : ¬ changed pair)
    (time : ℚ) : store'.Fires pair time ↔ store.Fires pair time :=
  and_congr (h.lastActiveBy pair hpair time) (h.kept pair hpair)

section Groups

variable {store : StatusStore} (now : ℚ) {alertRules : List (Rule Action)} {rule : Rule Action}

theorem fireGroups_cons (hvalid : store.Valid) (hrule : rule.id ∈ alertRules.map Rule.id)
    (item : ℕ × GroupEvent Event Occurrence) (rest : List (ℕ × GroupEvent Event Occurrence)) :
    ∃ store', store'.Valid ∧
      StatusStore.SameExcept (fun pair ↦ pair = (rule.id, item.1)) store store' ∧
      fireGroups now alertRules rule store (item :: rest) =
        if store.Fires (rule.id, item.1) (freqOffset now rule) then
          (fireGroups now alertRules rule store' rest).map fun (store, activated) ↦
            (store, item.2 :: activated)
        else some (store', []) := by
  obtain ⟨status, hstatus, hcached⟩ :=
    StatusStore.exists_getItem_bulkGetRuleStatus (alertRules.map Rule.id) item.1 hvalid hrule
  have hread := StatusStore.sameExcept_bulkGetRuleStatus (alertRules.map Rule.id) item.1 hvalid
  have hvalidRead := hvalid.bulkGetRuleStatus (alertRules.map Rule.id) item.1
  have hfires := @hread.fires _ _ _ (rule.id, item.1) not_false (freqOffset now rule)
  simp only [fireGroups, hstatus]
  generalize (store.bulkGetRuleStatus (alertRules.map Rule.id) item.1).2 = read at *
  by_cases hlast : ∀ lastActive ∈ status.lastActive, lastActive ≤ freqOffset now rule
  · have hupdated := @StatusStore.updateLastActive_ne_zero _ _ _ _ now hvalidRead hcached hlast
    have hchanged := @StatusStore.sameExcept_updateLastActive _ _ _ (freqOffset now rule) now
      hvalidRead hcached
    refine ⟨(read.updateLastActive status.id (freqOffset now rule) now).2,
      hvalidRead.updateLastActive, (hread.trans hchanged).mono fun pair hpair ↦
        hpair.resolve_left not_false, ?_⟩
    rw [if_pos hlast]
    by_cases hzero : (read.updateLastActive status.id (freqOffset now rule) now).1 = 0
    · rw [if_pos hzero, if_neg fun hstore ↦ hupdated.mpr (hfires.mpr hstore) hzero]
    · rw [if_neg hzero, if_pos (hfires.mp (hupdated.mp hzero))]
  · refine ⟨read, hvalidRead, hread.mono fun _ hpair ↦ hpair.elim, ?_⟩
    rw [if_neg hlast, if_neg]
    exact fun hstore ↦ hlast ((hfires.mpr hstore).1.1 status hcached)

theorem fireGroups_eq_takeWhile (groups : List (ℕ × GroupEvent Event Occurrence))
    (store : StatusStore) (hvalid : store.Valid) (hrule : rule.id ∈ alertRules.map Rule.id)
    (hnodup : (groups.map Prod.fst).Nodup) :
    ∃ store', store'.Valid ∧ StatusStore.SameExcept (fun pair ↦ pair.1 = rule.id) store store' ∧
      fireGroups now alertRules rule store groups =
        some (store', (groups.takeWhile fun item ↦
          store.Fires (rule.id, item.1) (freqOffset now rule)).map Prod.snd) := by
  induction groups generalizing store with
  | nil => exact ⟨store, hvalid, StatusStore.SameExcept.refl _ store, rfl⟩
  | cons item rest ih =>
    rw [map_cons, nodup_cons] at hnodup
    obtain ⟨next, hnext, hsame, hcons⟩ := fireGroups_cons now hvalid hrule item rest
    have hsameRule := hsame.mono fun pair hpair ↦ congrArg Prod.fst hpair
    rw [hcons]
    by_cases hfires : store.Fires (rule.id, item.1) (freqOffset now rule)
    · obtain ⟨last, hlast, hsameLast, hrest⟩ := ih next hnext hnodup.2
      refine ⟨last, hlast, (hsameRule.trans hsameLast).mono fun pair ↦ or_self_iff.mp, ?_⟩
      have hothers : ∀ other ∈ rest, (next.Fires (rule.id, other.1) (freqOffset now rule) ↔
          store.Fires (rule.id, other.1) (freqOffset now rule)) := by
        intro other hother
        refine hsame.fires (fun heq ↦ hnodup.1 ?_) _
        have hgroup : other.1 = item.1 := congrArg Prod.snd heq
        rw [← hgroup]
        exact mem_map_of_mem hother
      rw [if_pos hfires, hrest, takeWhile_cons_of_pos (by simpa using hfires),
        takeWhile_congr fun other hother ↦ by rw [decide_eq_decide.mpr (hothers other hother)]]
      rfl
    · rw [if_neg hfires, takeWhile_cons_of_neg (by simpa using hfires)]
      exact ⟨next, hnext, hsameRule, rfl⟩

end Groups

section Rules

variable (fetches : Fetches Event Occurrence) (now : ℚ)
  (parsedRulegroupToEventData : List ((ℕ × ℕ) × InstanceData)) (alertRules : List (Rule Action))

def firedGroups (store : StatusStore) (fired : Rule Action × List ℕ) :
    List (ℕ × GroupEvent Event Occurrence) :=
  (getGroupToGroupevent fetches parsedRulegroupToEventData fired.2).takeWhile fun item ↦
    store.Fires (fired.1.id, item.1) (freqOffset now fired.1)

theorem fireRules_eq_flatMap (rulesToFire : List (Rule Action × List ℕ)) (store : StatusStore)
    (hvalid : store.Valid) (hrules : ∀ fired ∈ rulesToFire, fired.1.id ∈ alertRules.map Rule.id)
    (hnodup : (rulesToFire.map fun fired ↦ fired.1.id).Nodup) :
    ∃ store', fireRules fetches now parsedRulegroupToEventData alertRules store rulesToFire =
      some (store', rulesToFire.flatMap fun fired ↦
        (firedGroups fetches now parsedRulegroupToEventData store fired).map fun item ↦
          (fired.1, item.2)) := by
  induction rulesToFire generalizing store with
  | nil => exact ⟨store, rfl⟩
  | cons fired rest ih =>
    rw [forall_mem_cons] at hrules
    rw [map_cons, nodup_cons] at hnodup
    obtain ⟨next, hnext, hsame, hgroups⟩ := fireGroups_eq_takeWhile now
      (getGroupToGroupevent fetches parsedRulegroupToEventData fired.2) store hvalid hrules.1
      (nodup_groups fetches parsedRulegroupToEventData fired.2).1
    obtain ⟨last, hrest⟩ := ih next hnext hrules.2 hnodup.2
    have hothers : ∀ other ∈ rest, firedGroups fetches now parsedRulegroupToEventData next other =
        firedGroups fetches now parsedRulegroupToEventData store other := by
      intro other hother
      refine takeWhile_congr fun item _ ↦ decide_eq_decide.mpr (hsame.fires ?_ _)
      intro heq
      exact hnodup.1 (heq ▸ mem_map_of_mem (f := fun fired ↦ fired.1.id) hother)
    refine ⟨last, ?_⟩
    have hflat : rest.flatMap (fun fired ↦
        (firedGroups fetches now parsedRulegroupToEventData next fired).map fun item ↦
          (fired.1, item.2)) =
        rest.flatMap fun fired ↦
          (firedGroups fetches now parsedRulegroupToEventData store fired).map fun item ↦
            (fired.1, item.2) :=
      flatMap_congr fun other hother ↦ by rw [hothers other hother]
    simp only [fireRules, hgroups, Option.bind_some, hrest, hflat, Option.map_some,
      flatMap_cons, map_map]
    rfl

/-- The actions of a rule are activated for a group that has an event if and only if the rule was
last active for the group at or before the offset, whatever the other groups are. -/
def FiresByOwnStatus (store : StatusStore) (rulesToFire : List (Rule Action × List ℕ)) : Prop :=
  ∃ store' activated,
    fireRules fetches now parsedRulegroupToEventData alertRules store rulesToFire =
      some (store', activated) ∧
    ∀ fired ∈ rulesToFire,
      ∀ item ∈ getGroupToGroupevent fetches parsedRulegroupToEventData fired.2,
        ((fired.1, item.2) ∈ activated ↔
          store.LastActiveBy (fired.1.id, item.1) (freqOffset now fired.1))

/-- No group of a rule for which it was active too recently comes before one for which it was not,
and the row of a status that lets a rule fire has not been deleted. -/
def NoneCutOff (store : StatusStore) (rulesToFire : List (Rule Action × List ℕ)) : Prop :=
  ∀ fired ∈ rulesToFire,
    (∀ item ∈ getGroupToGroupevent fetches parsedRulegroupToEventData fired.2,
      store.LastActiveBy (fired.1.id, item.1) (freqOffset now fired.1) →
        store.Kept (fired.1.id, item.1)) ∧
    (getGroupToGroupevent fetches parsedRulegroupToEventData fired.2).Pairwise fun item other ↦
      store.LastActiveBy (fired.1.id, other.1) (freqOffset now fired.1) →
        store.LastActiveBy (fired.1.id, item.1) (freqOffset now fired.1)

variable {fetches now parsedRulegroupToEventData alertRules} {store : StatusStore}
  {rulesToFire : List (Rule Action × List ℕ)}

theorem mem_activated_iff (hnodup : (rulesToFire.map fun fired ↦ fired.1.id).Nodup)
    {fired : Rule Action × List ℕ} (hfired : fired ∈ rulesToFire)
    {item : ℕ × GroupEvent Event Occurrence}
    (hitem : item ∈ getGroupToGroupevent fetches parsedRulegroupToEventData fired.2) :
    (fired.1, item.2) ∈ rulesToFire.flatMap (fun fired ↦
        (firedGroups fetches now parsedRulegroupToEventData store fired).map fun item ↦
          (fired.1, item.2)) ↔
      item ∈ firedGroups fetches now parsedRulegroupToEventData store fired := by
  rw [mem_flatMap]
  constructor
  · rintro ⟨other, hother, hmem⟩
    obtain ⟨item', hitem', heq⟩ := mem_map.mp hmem
    obtain ⟨hrule, hevent⟩ := Prod.mk.inj heq
    obtain rfl : other = fired :=
      inj_on_of_nodup_map hnodup hother hfired (congrArg Rule.id hrule)
    obtain ⟨hkeys, hgroups⟩ := nodup_groups fetches parsedRulegroupToEventData other.2
    have hmem' : item' ∈ getGroupToGroupevent fetches parsedRulegroupToEventData other.2 :=
      (takeWhile_subset _) hitem'
    have hgroup : item'.1 = item.1 := by
      rw [← hgroups item' hmem', ← hgroups item hitem, hevent]
    exact inj_on_of_nodup_map hkeys hmem' hitem hgroup ▸ hitem'
  · intro hmem
    exact ⟨fired, hfired, mem_map_of_mem hmem⟩

/-- Every group fires by its own status if and only if none is cut off by one before it. -/
theorem fireRules_iff (hvalid : store.Valid)
    (hrules : ∀ fired ∈ rulesToFire, fired.1.id ∈ alertRules.map Rule.id)
    (hnodup : (rulesToFire.map fun fired ↦ fired.1.id).Nodup) :
    FiresByOwnStatus fetches now parsedRulegroupToEventData alertRules store rulesToFire ↔
      NoneCutOff fetches now parsedRulegroupToEventData store rulesToFire := by
  obtain ⟨store', hfire⟩ := fireRules_eq_flatMap fetches now parsedRulegroupToEventData alertRules
    rulesToFire store hvalid hrules hnodup
  have hown : FiresByOwnStatus fetches now parsedRulegroupToEventData alertRules store
      rulesToFire ↔ ∀ fired ∈ rulesToFire,
        ∀ item ∈ getGroupToGroupevent fetches parsedRulegroupToEventData fired.2,
          (item ∈ firedGroups fetches now parsedRulegroupToEventData store fired ↔
            store.LastActiveBy (fired.1.id, item.1) (freqOffset now fired.1)) := by
    constructor
    · rintro ⟨store'', activated, heq, hall⟩ fired hfired item hitem
      rw [hfire] at heq
      obtain ⟨-, rfl⟩ := Prod.mk.inj (Option.some_inj.mp heq)
      rw [← hall fired hfired item hitem, mem_activated_iff hnodup hfired hitem]
    · intro hall
      refine ⟨store', _, hfire, fun fired hfired item hitem ↦ ?_⟩
      rw [mem_activated_iff hnodup hfired hitem, hall fired hfired item hitem]
  rw [hown]
  refine forall₂_congr fun fired _ ↦ ?_
  have hgroups := (nodup_groups fetches parsedRulegroupToEventData fired.2).1.of_map
  have hiff := forall_mem_takeWhile_iff
    (p := fun item ↦ decide (store.Fires (fired.1.id, item.1) (freqOffset now fired.1)))
    (P := fun item ↦ store.LastActiveBy (fired.1.id, item.1) (freqOffset now fired.1))
    (fun item _ hfires ↦ (of_decide_eq_true hfires).1) hgroups
  refine hiff.trans (and_congr_left fun _ ↦ forall₂_congr fun item _ ↦ ?_)
  exact forall_congr' fun hlast ↦ decide_eq_true_iff.trans (and_iff_right hlast)

end Rules

/-- A rule that fires every thirty minutes. -/
def everyThirtyMinutes : Rule Unit := ⟨1, none, none, none, some 30, [], []⟩

/-- Two groups with one event each. -/
def twoGroups : Fetches ℕ ℕ := ⟨[1, 2], fun _ ↦ some 0, fun _ ↦ none⟩

/-- The data of the two groups. -/
def twoInstances : List ((ℕ × ℕ) × InstanceData) :=
  [((1, 1), ⟨some "1".toList, none⟩), ((1, 2), ⟨some "2".toList, none⟩)]

/-- The rule was active for the first group ten minutes ago, and never for the second one. -/
def recentlyActive : StatusStore := ⟨[⟨1, 1, 1, some 90⟩], 2, []⟩

/-- The rule was active for neither of the groups. -/
def neverActiveYet : StatusStore := ⟨[], 1, []⟩

theorem valid_neverActiveYet : neverActiveYet.Valid where
  nodup_ids := nodup_nil
  nodup_pairs := nodup_nil
  id_lt _ hrow := absurd hrow not_mem_nil
  cached_id_lt _ status hstatus := absurd hstatus (Option.not_mem_none status)
  cached _ status hstatus := absurd hstatus (Option.not_mem_none status)

theorem fireRules_iff_neverActiveYet :
    FiresByOwnStatus twoGroups 100 twoInstances [everyThirtyMinutes] neverActiveYet
      [(everyThirtyMinutes, [1, 2])] := by
  refine (fireRules_iff valid_neverActiveYet (by simp) (by simp)).mpr fun fired _ ↦ ?_
  have hlast : ∀ pair time, neverActiveYet.LastActiveBy pair time := fun pair time ↦
    ⟨fun status hstatus ↦ absurd hstatus (Option.not_mem_none status),
      fun row hrow ↦ absurd hrow not_mem_nil⟩
  refine ⟨fun item _ _ status hstatus ↦ absurd hstatus (Option.not_mem_none status), ?_⟩
  exact pairwise_of_forall fun item other _ ↦ hlast _ _

/-- The first group ends the loop, so the rule does not fire for the second one, for which it was
never active. -/
theorem recentlyActive_cuts_off :
    ((fireRules twoGroups 100 twoInstances [everyThirtyMinutes] recentlyActive
        [(everyThirtyMinutes, [1, 2])]).map fun result ↦ result.2.length) = some 0 ∧
      recentlyActive.LastActiveBy (1, 2) (freqOffset 100 everyThirtyMinutes) ∧
      ¬ FiresByOwnStatus twoGroups 100 twoInstances [everyThirtyMinutes] recentlyActive
        [(everyThirtyMinutes, [1, 2])] := by
  have hnone : ((fireRules twoGroups 100 twoInstances [everyThirtyMinutes] recentlyActive
      [(everyThirtyMinutes, [1, 2])]).map fun result ↦ result.2.length) = some 0 := by
    decide +kernel
  have hlast : recentlyActive.LastActiveBy (1, 2) (freqOffset 100 everyThirtyMinutes) := by
    decide +kernel
  refine ⟨hnone, hlast, ?_⟩
  rintro ⟨store', activated, heq, hall⟩
  have hempty : activated = [] := by
    simpa [heq] using hnone
  have hsecond : (2, (⟨0, 2, none⟩ : GroupEvent ℕ ℕ)) ∈
      getGroupToGroupevent twoGroups twoInstances [1, 2] := by
    decide
  have hactivated := (hall _ mem_cons_self _ hsecond).mpr hlast
  simp [hempty] at hactivated

end Sentry.Rules
