import Sentry.Library.DictionaryOfLists
import Sentry.Rules.Processor

/-!
# The futures of the rules that fire

`apply` returns lists of rule futures, each with a callback, one list for a key. The futures of one
rule are collected by their key (`contents_activateDownstreamActions`), but the dictionary of a rule
updates that of the rules before it. So every future is returned if and only if no two rules that
fire have futures of the same key (`delivers_apply_iff`).
-/

namespace Sentry.Rules

open Library List

variable {Action Key Callback Kwargs : Type*}

def futuresOf (after : Rule Action → Action → Option (List (CallbackFuture Key Callback Kwargs)))
    (rule : Rule Action) : List (CallbackFuture Key Callback Kwargs) :=
  rule.actions.flatMap fun action ↦ (after rule action).getD []

def keyedRuleFuture (rule : Rule Action) (future : CallbackFuture Key Callback Kwargs) :
    (Key ⊕ Callback) × RuleFuture Action Kwargs :=
  (future.groupKey, ⟨rule, future.kwargs⟩)

/-- A collection has every future of the rules once, as one of its rule, in a list that comes with a
callback for its key. -/
def Delivers (after : Rule Action → Action → Option (List (CallbackFuture Key Callback Kwargs)))
    (rules : List (Rule Action)) (collection : List (Callback × List (RuleFuture Action Kwargs))) :
    Prop :=
  ∃ grouped : GroupedFutures Action Key Callback Kwargs, grouped.map Prod.snd = collection ∧
    (contents Prod.snd grouped).Perm
      (rules.flatMap fun rule ↦ (futuresOf after rule).map (keyedRuleFuture rule)) ∧
    ∀ item ∈ grouped, ∃ rule ∈ rules, ∃ future ∈ futuresOf after rule,
      future.groupKey = item.1 ∧ future.callback = item.2.1

/-- No two rules have futures of the same key. -/
def DistinctKeys (after : Rule Action → Action → Option (List (CallbackFuture Key Callback Kwargs)))
    (rules : List (Rule Action)) : Prop :=
  rules.Pairwise fun rule other ↦
    ∀ future ∈ futuresOf after rule, ∀ future' ∈ futuresOf after other,
      future.groupKey ≠ future'.groupKey

theorem Delivers.length_eq {rules : List (Rule Action)}
    {after : Rule Action → Action → Option (List (CallbackFuture Key Callback Kwargs))}
    {collection : List (Callback × List (RuleFuture Action Kwargs))}
    (h : Delivers after rules collection) : (collection.map fun value ↦ value.2.length).sum =
      (rules.flatMap fun rule ↦ (futuresOf after rule).map (keyedRuleFuture rule)).length := by
  obtain ⟨grouped, rfl, hperm, -⟩ := h
  rw [← hperm.length_eq, length_contents]

variable [DecidableEq Key] [DecidableEq Callback]
  {after : Rule Action → Action → Option (List (CallbackFuture Key Callback Kwargs))}
  {rule : Rule Action} {grouped : GroupedFutures Action Key Callback Kwargs}

theorem activateDownstreamActions_eq (rule : Rule Action) :
    activateDownstreamActions after rule = (futuresOf after rule).foldl (addFuture rule) [] := by
  rw [activateDownstreamActions, futuresOf, foldl_flatMap]
  congr 1
  ext grouped action
  cases after rule action <;> rfl

theorem nodup_keys_addFuture (h : (grouped.map Prod.fst).Nodup)
    (future : CallbackFuture Key Callback Kwargs) :
    ((addFuture rule grouped future).map Prod.fst).Nodup := by
  unfold addFuture
  cases getItem grouped future.groupKey with
  | none | some => exact nodup_keys_setItem h _ _

theorem contents_addFuture (h : (grouped.map Prod.fst).Nodup)
    (future : CallbackFuture Key Callback Kwargs) :
    (contents Prod.snd (addFuture rule grouped future)).Perm
      (keyedRuleFuture rule future :: contents Prod.snd grouped) := by
  unfold addFuture
  cases hget : getItem grouped future.groupKey with
  | none =>
    have hkey : future.groupKey ∉ grouped.map Prod.fst := by
      intro hmem
      obtain ⟨item, hitem, heq⟩ := mem_map.mp hmem
      rw [← heq, (getItem_eq_some_iff h).mpr hitem] at hget
      cases hget
    refine (contents_setItem h _ _).trans ?_
    rw [delItem_of_notMem hkey]
    exact List.Perm.refl _
  | some value =>
    refine (contents_setItem h _ _).trans ?_
    rw [map_append, append_assoc]
    exact perm_middle.trans ((contents_perm (perm_of_getItem h hget)).symm.cons _)

theorem mem_keys_addFuture {future : CallbackFuture Key Callback Kwargs} {key : Key ⊕ Callback} :
    key ∈ (addFuture rule grouped future).map Prod.fst ↔
      key = future.groupKey ∨ key ∈ grouped.map Prod.fst := by
  unfold addFuture
  cases getItem grouped future.groupKey with
  | none | some => exact mem_keys_setItem

theorem forall_addFuture (h : (grouped.map Prod.fst).Nodup) {P : Key ⊕ Callback → Callback → Prop}
    {future : CallbackFuture Key Callback Kwargs} (hfuture : P future.groupKey future.callback)
    (hall : ∀ item ∈ grouped, item.2.2 ≠ [] ∧ P item.1 item.2.1) :
    ∀ item ∈ addFuture rule grouped future, item.2.2 ≠ [] ∧ P item.1 item.2.1 := by
  intro item hitem
  unfold addFuture at hitem
  cases hget : getItem grouped future.groupKey with
  | none =>
    rw [hget] at hitem
    rcases mem_cons.mp ((perm_setItem h _ _).mem_iff.mp hitem) with rfl | hmem
    · exact ⟨cons_ne_nil _ _, hfuture⟩
    · exact hall item (mem_filter.mp hmem).1
  | some value =>
    rw [hget] at hitem
    rcases mem_cons.mp ((perm_setItem h _ _).mem_iff.mp hitem) with rfl | hmem
    · exact ⟨by simp, (hall _ (mem_of_getItem hget)).2⟩
    · exact hall item (mem_filter.mp hmem).1

/-- The dictionary of one rule: its keys differ, it holds the futures of the rule, and a list has at
least one future and the callback of a future of its key. -/
structure HoldsFutures (rule : Rule Action) (futures : List (CallbackFuture Key Callback Kwargs))
    (grouped : GroupedFutures Action Key Callback Kwargs) : Prop where
  nodup : (grouped.map Prod.fst).Nodup
  contents : (contents Prod.snd grouped).Perm (futures.map (keyedRuleFuture rule))
  lists : ∀ item ∈ grouped, item.2.2 ≠ [] ∧
    ∃ future ∈ futures, future.groupKey = item.1 ∧ future.callback = item.2.1
  keys : ∀ key, key ∈ grouped.map Prod.fst ↔ ∃ future ∈ futures, future.groupKey = key

theorem holdsFutures_foldl (rule : Rule Action)
    (futures : List (CallbackFuture Key Callback Kwargs)) :
    HoldsFutures rule futures (futures.foldl (addFuture rule) []) := by
  induction futures using reverseRecOn with
  | nil => exact ⟨nodup_nil, List.Perm.refl _, by simp, by simp⟩
  | append_singleton futures future ih =>
    rw [foldl_append]
    refine ⟨nodup_keys_addFuture ih.nodup future, ?_, ?_, fun key ↦ ?_⟩
    · rw [map_append, map_singleton]
      exact (contents_addFuture ih.nodup future).trans
        ((ih.contents.cons _).trans (perm_append_singleton _ _).symm)
    · refine forall_addFuture (P := fun key callback ↦ ∃ f ∈ futures ++ [future],
        f.groupKey = key ∧ f.callback = callback) ih.nodup ?_ fun item hitem ↦ ?_
      · exact ⟨future, mem_append_right _ (mem_singleton_self _), rfl, rfl⟩
      · obtain ⟨hne, f, hf, hkey⟩ := ih.lists item hitem
        exact ⟨hne, f, mem_append_left _ hf, hkey⟩
    · rw [foldl_cons, foldl_nil, mem_keys_addFuture, ih.keys]
      simp only [mem_append, mem_singleton, or_and_right, exists_or, exists_eq_left]
      rw [or_comm, eq_comm]

theorem holdsFutures_activateDownstreamActions (rule : Rule Action) :
    HoldsFutures rule (futuresOf after rule) (activateDownstreamActions after rule) := by
  rw [activateDownstreamActions_eq]
  exact holdsFutures_foldl rule _

namespace RuleProcessor

variable {processor : RuleProcessor Action} {rules : List (Rule Action)} {snoozedRules : List ℕ}
  {ruleStatuses : ℕ → GroupRuleStatus}

/-- The rules that fire in `apply`. -/
def firedRules (processor : RuleProcessor Action) (rules : List (Rule Action))
    (snoozedRules : List ℕ) (ruleStatuses : ℕ → GroupRuleStatus) : List (Rule Action) :=
  if processor.isUnresolved then rules.filter (processor.fires snoozedRules ruleStatuses) else []

theorem groupedFutures_eq :
    processor.groupedFutures after rules snoozedRules ruleStatuses =
      ((processor.firedRules rules snoozedRules ruleStatuses).map
        (activateDownstreamActions after)).foldl updateItems [] := by
  have hupdate (grouped : GroupedFutures Action Key Callback Kwargs) (rule : Rule Action) :
      (if grouped = [] then activateDownstreamActions after rule
        else updateItems grouped (activateDownstreamActions after rule)) =
      updateItems grouped (activateDownstreamActions after rule) := by
    by_cases hnil : grouped = []
    · rw [if_pos hnil, hnil]
      exact (dictOfItems_of_nodup (holdsFutures_activateDownstreamActions rule).nodup).symm
    · rw [if_neg hnil]
  unfold groupedFutures firedRules
  cases processor.isUnresolved with
  | false => rfl
  | true =>
    rw [if_neg (by simp), if_pos rfl, foldl_map, foldl_filter]
    congr 1
    ext grouped rule
    rw [hupdate]

theorem flatMap_contents_perm (rules : List (Rule Action)) :
    ((rules.map (activateDownstreamActions after)).flatMap (contents Prod.snd)).Perm
      (rules.flatMap fun rule ↦ (futuresOf after rule).map (keyedRuleFuture rule)) := by
  rw [flatMap_map]
  exact List.Perm.flatMap_left _ fun rule _ ↦ (holdsFutures_activateDownstreamActions rule).contents

theorem distinctKeys_iff (rules : List (Rule Action)) :
    (rules.map (activateDownstreamActions after)).Pairwise
        (fun d d' ↦ List.Disjoint (d.map Prod.fst) (d'.map Prod.fst)) ↔
      DistinctKeys after rules := by
  rw [pairwise_map, DistinctKeys]
  refine List.Pairwise.iff_of_mem fun {rule other} _ _ ↦ ?_
  have hkeys (r : Rule Action) (key : Key ⊕ Callback) :
      key ∈ (activateDownstreamActions after r).map Prod.fst ↔
        ∃ future ∈ futuresOf after r, future.groupKey = key :=
    (holdsFutures_activateDownstreamActions r).keys key
  constructor
  · intro hdisjoint future hfuture future' hfuture' heq
    exact hdisjoint ((hkeys rule _).mpr ⟨future, hfuture, rfl⟩)
      ((hkeys other _).mpr ⟨future', hfuture', heq.symm⟩)
  · intro hne key hkey hkey'
    obtain ⟨future, hfuture, heq⟩ := (hkeys rule key).mp hkey
    obtain ⟨future', hfuture', heq'⟩ := (hkeys other key).mp hkey'
    exact hne future hfuture future' hfuture' (heq.trans heq'.symm)

theorem contents_groupedFutures_perm_iff :
    (contents Prod.snd (processor.groupedFutures after rules snoozedRules ruleStatuses)).Perm
        ((processor.firedRules rules snoozedRules ruleStatuses).flatMap fun rule ↦
          (futuresOf after rule).map (keyedRuleFuture rule)) ↔
      DistinctKeys after (processor.firedRules rules snoozedRules ruleStatuses) := by
  rw [groupedFutures_eq, ← distinctKeys_iff, ← (flatMap_contents_perm _).congr_right,
    contents_foldl_updateItems_perm_iff]
  · intro d hd
    obtain ⟨rule, -, rfl⟩ := mem_map.mp hd
    exact (holdsFutures_activateDownstreamActions rule).nodup
  · intro d hd item hitem
    obtain ⟨rule, -, rfl⟩ := mem_map.mp hd
    exact ((holdsFutures_activateDownstreamActions rule).lists item hitem).1

/-- Every future of the rules that fire is returned by `apply`, once, as one of its rule, in a list
that comes with a callback for its key, if and only if no two of the rules have futures of the same
key. -/
theorem delivers_apply_iff :
    Delivers after (processor.firedRules rules snoozedRules ruleStatuses)
        (processor.apply after rules snoozedRules ruleStatuses) ↔
      DistinctKeys after (processor.firedRules rules snoozedRules ruleStatuses) := by
  have hnodup : ∀ d ∈ (processor.firedRules rules snoozedRules ruleStatuses).map
      (activateDownstreamActions after), (d.map Prod.fst).Nodup := by
    intro d hd
    obtain ⟨rule, -, rfl⟩ := mem_map.mp hd
    exact (holdsFutures_activateDownstreamActions rule).nodup
  rw [← contents_groupedFutures_perm_iff]
  constructor
  · intro hdelivers
    have hsub := (contents_foldl_updateItems_subperm Prod.snd hnodup).trans
      (flatMap_contents_perm _).subperm
    rw [← groupedFutures_eq] at hsub
    refine hsub.perm_of_length_le ?_
    rw [← hdelivers.length_eq, length_contents, apply]
  · intro hperm
    refine ⟨_, rfl, hperm, fun item hitem ↦ ?_⟩
    rw [groupedFutures_eq] at hitem
    obtain ⟨d, hd, hmem⟩ := exists_mem_of_mem_foldl_updateItems hnodup hitem
    obtain ⟨rule, hrule, rfl⟩ := mem_map.mp hd
    exact ⟨rule, hrule, ((holdsFutures_activateDownstreamActions rule).lists item hmem).2⟩

end RuleProcessor

/-- A rule without conditions and with one action. -/
def unconditional (id : ℕ) : Rule Unit := ⟨id, none, none, none, none, [], [()]⟩

/-- An action that yields one future, under the same key for every rule. -/
def notifyUnderOneKey (rule : Rule Unit) (_ : Unit) : Option (List (CallbackFuture Unit Unit ℕ)) :=
  some [⟨(), rule.id, some ()⟩]

/-- An event without an environment of its own, in an unresolved group. -/
def someEvent : RuleProcessor Unit where
  groupId := 1
  isUnresolved := true
  environment := some 1
  now := 0
  ruleType _ := none
  conditionMatches _ _ := none

/-- Both rules fire, and only the future of the second one is returned. -/
theorem twoRules_not_delivers :
    ¬ Delivers notifyUnderOneKey
      (someEvent.firedRules [unconditional 1, unconditional 2] [] fun _ ↦ ⟨none, none⟩)
      (someEvent.apply notifyUnderOneKey [unconditional 1, unconditional 2] []
        fun _ ↦ ⟨none, none⟩) := by
  intro hdelivers
  have hlength := hdelivers.length_eq
  exact absurd hlength (by decide +kernel)

end Sentry.Rules
