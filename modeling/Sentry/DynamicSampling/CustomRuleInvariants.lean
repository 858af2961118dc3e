import Sentry.DynamicSampling.CustomRules
import Mathlib.Data.List.Nodup
import Mathlib.Data.Nat.Find
import Mathlib.Algebra.Order.BigOperators.Group.List

/-!
# What holds of custom sampling rules

The active rules of an organization have different ids and hashes, and an active project has at most
as many as it may have (`Consistent`). Time, deactivation and extension keep this, and so does a new
rule, which has a free id (`isLeast_assignRuleId`) and a place in each project
(`consistent_create`). The limit is checked for active projects only.
-/

namespace Sentry.DynamicSampling

open List

variable {Condition Hash : Type} {directory : Directory Condition Hash}
  {rules : List (CustomRule Condition Hash)} {rule : CustomRule Condition Hash}
  {s : RuleStore Condition Hash} {now later : ℤ} {project organization : ℕ}

/-! ### Statements -/

def CustomRule.AppliesTo (directory : Directory Condition Hash) (rule : CustomRule Condition Hash)
    (project : ℕ) : Prop :=
  if rule.isOrgLevel then rule.organization = directory.organizationOf project
  else project ∈ rule.projects

instance (rule : CustomRule Condition Hash) (project : ℕ) :
    Decidable (rule.AppliesTo directory project) := by
  unfold CustomRule.AppliesTo
  infer_instance

/-- The active rules for a project. -/
def activeRulesOf (directory : Directory Condition Hash) (rules : List (CustomRule Condition Hash))
    (project : ℕ) (now : ℤ) : List (CustomRule Condition Hash) :=
  rules.filter fun rule ↦ rule.ActiveAt now ∧ rule.AppliesTo directory project

def Apart (now : ℤ) (rule other : CustomRule Condition Hash) : Prop :=
  rule.ActiveAt now → other.ActiveAt now → rule.organization = other.organization →
    rule.ruleId ≠ other.ruleId ∧ rule.conditionHash ≠ other.conditionHash

structure Consistent (directory : Directory Condition Hash) (now : ℤ)
    (rules : List (CustomRule Condition Hash)) : Prop where
  ruleId_bounds : ∀ rule ∈ rules, rule.ActiveAt now → 1 ≤ rule.ruleId ∧ rule.ruleId ≤ maxCustomRules
  apart : rules.Pairwise (Apart now)
  limit : ∀ project, directory.isActive project = true →
    (activeRulesOf directory rules project now).length ≤ maxCustomRulesPerProject

def DropsNone (directory : Directory Condition Hash) (now : ℤ)
    (rules : List (CustomRule Condition Hash)) : Prop :=
  ∀ project, directory.isActive project = true → ∀ rule ∈ rules, rule.ActiveAt now →
    rule.AppliesTo directory project → rule.startDate < now →
    rule ∈ getProjectRules directory rules project now

def CreatesSmallestFree (s s' : RuleStore Condition Hash) : Prop :=
  ∀ rule ∈ s'.rules, (∀ old ∈ s.rules, old.id ≠ rule.id) →
    IsLeast {ruleId | 1 ≤ ruleId ∧ ∀ other ∈ s.rules, other.organization = rule.organization →
      other.ActiveAt s'.now → other.ruleId ≠ ruleId} rule.ruleId

/-- The rules of the table. -/
structure Tidy (s : RuleStore Condition Hash) : Prop where
  nodup : (s.rules.map CustomRule.id).Nodup
  id_lt : ∀ rule ∈ s.rules, rule.id < s.nextId
  start_le : ∀ rule ∈ s.rules, rule.startDate ≤ s.now
  projects_eq_nil : ∀ rule ∈ s.rules, rule.isOrgLevel = true → rule.projects = []

/-! ### Time and changes of rules -/

theorem CustomRule.ActiveAt.of_le (h : rule.ActiveAt later) (hle : now ≤ later) :
    rule.ActiveAt now :=
  ⟨h.1, hle.trans_lt h.2⟩

theorem Consistent.of_le (h : Consistent directory now rules) (hle : now ≤ later) :
    Consistent directory later rules := by
  refine ⟨fun rule hrule hactive ↦ h.ruleId_bounds rule hrule (hactive.of_le hle),
    h.apart.imp fun hapart hactive hother ↦ hapart (hactive.of_le hle) (hother.of_le hle),
    fun project hproject ↦ le_trans ?_ (h.limit project hproject)⟩
  refine (monotone_filter_right rules fun rule hrule ↦ ?_).length_le
  rw [decide_eq_true_eq] at hrule ⊢
  exact ⟨hrule.1.of_le hle, hrule.2⟩

/-- A change of a rule that does not matter to the others at this time. -/
structure SameAt (now : ℤ) (rule rule' : CustomRule Condition Hash) : Prop where
  activeAt : rule'.ActiveAt now ↔ rule.ActiveAt now
  organization : rule'.organization = rule.organization
  ruleId : rule'.ruleId = rule.ruleId
  conditionHash : rule'.conditionHash = rule.conditionHash
  isOrgLevel : rule'.isOrgLevel = rule.isOrgLevel
  projects : rule'.projects = rule.projects

theorem Consistent.map {change : CustomRule Condition Hash → CustomRule Condition Hash}
    (h : Consistent directory now rules) (hchange : ∀ rule ∈ rules, SameAt now rule (change rule)) :
    Consistent directory now (rules.map change) := by
  refine ⟨fun rule hrule hactive ↦ ?_, ?_, fun project hproject ↦ ?_⟩
  · obtain ⟨old, hold, rfl⟩ := mem_map.mp hrule
    rw [(hchange old hold).ruleId]
    exact h.ruleId_bounds old hold ((hchange old hold).activeAt.mp hactive)
  · rw [pairwise_map]
    refine h.apart.imp_of_mem fun {rule other} hrule hother hapart ↦ ?_
    intro hactive hactive' horganization
    have hsame := hchange rule hrule
    have hsame' := hchange other hother
    rw [hsame.ruleId, hsame'.ruleId, hsame.conditionHash, hsame'.conditionHash]
    refine hapart (hsame.activeAt.mp hactive) (hsame'.activeAt.mp hactive') ?_
    rw [← hsame.organization, ← hsame'.organization]
    exact horganization
  · refine le_of_eq_of_le ?_ (h.limit project hproject)
    rw [activeRulesOf, activeRulesOf, ← countP_eq_length_filter,
      ← countP_eq_length_filter, countP_map]
    refine countP_congr fun rule hrule ↦ ?_
    have hsame := hchange rule hrule
    rw [Function.comp_apply, decide_eq_true_eq, decide_eq_true_eq, hsame.activeAt,
      CustomRule.AppliesTo, CustomRule.AppliesTo, hsame.isOrgLevel, hsame.organization,
      hsame.projects]

/-! ### The active rules of a project -/

theorem countP_add_countP {α : Type} {p q r : α → Bool} {list : List α}
    (h : ∀ x ∈ list, (if p x then 1 else 0) + (if q x then 1 else 0) ≤ if r x then 1 else 0) :
    list.countP p + list.countP q ≤ list.countP r := by
  induction list with
  | nil => exact le_rfl
  | cons x list ih =>
    have hlist := ih fun y hy ↦ h y (mem_cons_of_mem _ hy)
    have hx := h x mem_cons_self
    rw [countP_cons, countP_cons, countP_cons]
    omega

theorem length_activeRulesOf_le (hstart : ∀ rule ∈ rules, rule.startDate ≤ now) :
    (activeRulesOf directory rules project now).length ≤
      numActiveRulesForProject directory rules project now := by
  rw [activeRulesOf, ← countP_eq_length_filter, numActiveRulesForProject]
  induction rules with
  | nil => exact le_rfl
  | cons rule rules ih =>
    have hrules := ih fun other hother ↦ hstart other (mem_cons_of_mem _ hother)
    have hrule := hstart rule mem_cons_self
    simp only [countP_cons]
    by_cases hactive : rule.ActiveAt now ∧ rule.AppliesTo directory project
    · have happlies := hactive.2
      rw [CustomRule.AppliesTo] at happlies
      by_cases horg : rule.isOrgLevel = true
      · rw [if_pos horg] at happlies
        simp only [hactive.1, hrule, horg, happlies, hactive.2, and_self, decide_true, if_true,
          not_true_eq_false, false_and, decide_false, Bool.false_eq_true, if_false] at hrules ⊢
        omega
      · rw [if_neg horg] at happlies
        simp only [hactive.1, hrule, horg, happlies, hactive.2, and_self, decide_true, if_true,
          not_false_eq_true, false_and, decide_false, Bool.false_eq_true, if_false] at hrules ⊢
        omega
    · rw [if_neg (by simpa using hactive)]
      omega

theorem length_queries_le (directory : Directory Condition Hash) (project : ℕ) (now : ℤ)
    (hprojects : ∀ rule ∈ rules, rule.isOrgLevel = true → rule.projects = []) :
    (rules.filter fun rule ↦ project ∈ rule.projects ∧ rule.ActiveAt now ∧
        rule.startDate < now).length +
      (rules.filter fun rule ↦ rule.isOrgLevel ∧
        rule.organization = directory.organizationOf project ∧ rule.ActiveAt now ∧
        rule.startDate < now).length ≤ (activeRulesOf directory rules project now).length := by
  rw [activeRulesOf, ← countP_eq_length_filter, ← countP_eq_length_filter,
    ← countP_eq_length_filter]
  refine countP_add_countP fun rule hrule ↦ ?_
  by_cases horg : rule.isOrgLevel = true
  · have hnone := hprojects rule hrule horg
    by_cases hquery : rule.organization = directory.organizationOf project ∧ rule.ActiveAt now ∧
      rule.startDate < now
    · simp [hnone, horg, hquery, CustomRule.AppliesTo]
    · simp [hnone, horg, hquery]
  · by_cases hquery : project ∈ rule.projects ∧ rule.ActiveAt now ∧ rule.startDate < now
    · simp [horg, hquery, CustomRule.AppliesTo]
    · simp [horg, hquery]

theorem getProjectRules_eq {orgRules projectRules : List (CustomRule Condition Hash)}
    (horg : orgRules = rules.filter fun rule ↦ rule.isOrgLevel ∧
      rule.organization = directory.organizationOf project ∧ rule.ActiveAt now ∧
      rule.startDate < now)
    (hproject : projectRules = rules.filter fun rule ↦ project ∈ rule.projects ∧
      rule.ActiveAt now ∧ rule.startDate < now)
    (hlength : projectRules.length + orgRules.length ≤ maxCustomRulesPerProject) :
    getProjectRules directory rules project now =
      projectRules ++ orgRules.filter fun rule ↦ ∀ other ∈ projectRules, other.id ≠ rule.id := by
  have hunion : (projectRules ++ orgRules.filter fun rule ↦
      ∀ other ∈ projectRules, other.id ≠ rule.id).length ≤ maxCustomRulesPerProject := by
    refine le_trans ?_ hlength
    rw [length_append]
    exact Nat.add_le_add_left (length_filter_le _ _) _
  rw [getProjectRules, ← horg, ← hproject, take_of_length_le (l := orgRules) (by omega),
    take_of_length_le (l := projectRules) (by omega)]
  rw [take_of_length_le (hunion.trans (Nat.le_succ _)), take_of_length_le hunion]

theorem Consistent.dropsNone (h : Consistent directory s.now s.rules) (hs : Tidy s) :
    DropsNone directory s.now s.rules := by
  intro project hactiveProject rule hrule hactive happlies hstart
  have hlength := (length_queries_le directory project s.now hs.projects_eq_nil).trans
    (h.limit project hactiveProject)
  rw [getProjectRules_eq rfl rfl hlength, mem_append]
  rw [CustomRule.AppliesTo] at happlies
  by_cases horg : rule.isOrgLevel = true
  · rw [if_pos horg] at happlies
    refine Or.inr (mem_filter.mpr ⟨mem_filter.mpr ⟨hrule, ?_⟩, ?_⟩)
    · exact decide_eq_true ⟨horg, happlies, hactive, hstart⟩
    · refine decide_eq_true fun other hother hid ↦ ?_
      obtain ⟨hmem, hquery⟩ := mem_filter.mp hother
      rw [decide_eq_true_eq, inj_on_of_nodup_map hs.nodup hmem hrule hid,
        hs.projects_eq_nil rule hrule horg] at hquery
      exact absurd hquery.1 not_mem_nil
  · rw [if_neg horg] at happlies
    exact Or.inl (mem_filter.mpr ⟨hrule, decide_eq_true ⟨happlies, hactive, hstart⟩⟩)

/-! ### A free id -/

def takenIds (rules : List (CustomRule Condition Hash)) (organization : ℕ) (now : ℤ) : List ℕ :=
  (rules.filter fun rule ↦ rule.organization = organization ∧ rule.ActiveAt now).map
    CustomRule.ruleId

theorem exists_free (taken : List ℕ) : ∃ ruleId, 1 ≤ ruleId ∧ ruleId ∉ taken := by
  refine ⟨taken.sum + 1, Nat.le_add_left 1 _, fun hmem ↦ ?_⟩
  have hle := le_sum_of_mem hmem
  omega

theorem isLeast_assignRuleId (organization : ℕ) (now : ℤ) (hzero : rule ∈ rules)
    (hruleId : rule.ruleId = 0) :
    IsLeast {ruleId | 1 ≤ ruleId ∧ ruleId ∉ takenIds rules organization now}
      (assignRuleId rules organization now) := by
  have hexists := exists_free (takenIds rules organization now)
  have hfree := Nat.find_spec hexists
  have hleast : ∀ ruleId, 1 ≤ ruleId ∧ ruleId ∉ takenIds rules organization now →
      Nat.find hexists ≤ ruleId := fun ruleId hruleId ↦ Nat.find_min' hexists hruleId
  generalize Nat.find hexists = free at hfree hleast
  -- The id before the smallest free one is taken or zero, and so there is a row with it.
  have hbefore : free - 1 ∈ (rules.map CustomRule.ruleId).filter fun ruleId ↦
      ruleId + 1 ∉ takenIds rules organization now := by
    refine mem_filter.mpr ⟨?_, ?_⟩
    · by_cases hone : free = 1
      · rw [hone]
        exact mem_map.mpr ⟨rule, hzero, hruleId⟩
      · have htaken : free - 1 ∈ takenIds rules organization now := by
          by_contra hnot
          have hle := hleast (free - 1) ⟨by omega, hnot⟩
          omega
        exact map_subset _ filter_sublist.subset htaken
    · rw [Nat.sub_add_cancel hfree.1]
      exact decide_eq_true hfree.2
  have hassign : assignRuleId rules organization now = free := by
    have hmin : ((rules.map CustomRule.ruleId).filter fun ruleId ↦
        ruleId + 1 ∉ takenIds rules organization now).min? = some (free - 1) := by
      refine min?_eq_some_iff.mpr ⟨hbefore, fun ruleId hmem ↦ ?_⟩
      have hle := hleast (ruleId + 1)
        ⟨Nat.le_add_left 1 ruleId, of_decide_eq_true (mem_filter.mp hmem).2⟩
      omega
    rw [takenIds] at hmin
    rw [assignRuleId, hmin]
    exact Nat.sub_add_cancel hfree.1
  rw [hassign]
  exact ⟨hfree, fun ruleId hruleId ↦ hleast ruleId hruleId⟩

/-! ### A new rule -/

theorem lt_of_perProjectLimitReached_eq_false {projects : List ℕ}
    (h : perProjectLimitReached directory rules projects organization now = false)
    (hproject : project ∈ projects ∨ (projects = [] ∧
      directory.organizationOf project = organization ∧ directory.isActive project = true)) :
    numActiveRulesForProject directory rules project now < maxCustomRulesPerProject := by
  have hnone := List.any_eq_false.mp h project ?_
  · simpa using hnone
  · rcases hproject with hmem | ⟨hnil, horganization, hactive⟩
    · rwa [if_neg (ne_nil_of_mem hmem)]
    · rw [if_pos hnil, mem_filter, directory.mem_projectSet]
      exact ⟨horganization, hactive⟩

theorem Consistent.append (h : Consistent directory now rules)
    (hbounds : 1 ≤ rule.ruleId ∧ rule.ruleId ≤ maxCustomRules)
    (hapart : ∀ other ∈ rules, other.ActiveAt now → other.organization = rule.organization →
      other.ruleId ≠ rule.ruleId ∧ other.conditionHash ≠ rule.conditionHash)
    (hplace : ∀ project, directory.isActive project = true → rule.AppliesTo directory project →
      (activeRulesOf directory rules project now).length < maxCustomRulesPerProject) :
    Consistent directory now (rules ++ [rule]) := by
  refine ⟨fun other hother hactive ↦ ?_, ?_, fun project hproject ↦ ?_⟩
  · rcases mem_append.mp hother with hold | hnew
    · exact h.ruleId_bounds other hold hactive
    · rwa [mem_singleton.mp hnew]
  · refine pairwise_append.mpr ⟨h.apart, pairwise_singleton _ _, ?_⟩
    intro other hother new hnew hactive _ horganization
    rw [mem_singleton.mp hnew] at horganization ⊢
    exact hapart other hother hactive horganization
  · rw [activeRulesOf, filter_append, length_append]
    by_cases happlies : rule.ActiveAt now ∧ rule.AppliesTo directory project
    · have hlt := hplace project hproject happlies.2
      rw [activeRulesOf] at hlt
      have hone := length_filter_le (fun rule : CustomRule Condition Hash ↦
        rule.ActiveAt now ∧ rule.AppliesTo directory project) [rule]
      rw [length_singleton] at hone
      omega
    · rw [filter_cons_of_neg (by simpa using happlies)]
      exact h.limit project hproject

/-! ### Steps -/

variable [DecidableEq Hash] {request : RuleRequest Condition} {delays : Delays}

theorem sameAt_extended (request : RuleRequest Condition) {hash : Hash}
    {existing : CustomRule Condition Hash} (hs : Tidy s)
    (h : getRuleForOrg s.rules hash organization now = some existing) :
    ∀ rule ∈ s.rules, SameAt now rule
      (if rule.id = existing.id then rule.extended request else rule) := by
  intro rule hrule
  have hfound := find?_some h
  rw [decide_eq_true_eq] at hfound
  split
  next hid =>
    have heq := inj_on_of_nodup_map hs.nodup hrule (mem_of_find?_eq_some h) hid
    refine ⟨?_, rfl, rfl, rfl, rfl, rfl⟩
    rw [heq]
    exact iff_of_true ⟨hfound.2.2.1, lt_max_of_lt_right hfound.2.2.2⟩ hfound.2.2
  next => exact ⟨Iff.rfl, rfl, rfl, rfl, rfl, rfl⟩

omit [DecidableEq Hash] in
theorem sameAt_deactivated {time : ℤ} (hle : time ≤ now) (rule : CustomRule Condition Hash) :
    SameAt now rule (if rule.endDate < time then { rule with isActive := false } else rule) := by
  split
  next hended =>
    refine ⟨iff_of_false (fun hactive ↦ absurd hactive.1 Bool.false_ne_true)
      fun hactive ↦ ?_, rfl, rfl, rfl, rfl, rfl⟩
    exact absurd (hended.trans_le hle) hactive.2.not_gt
  next => exact ⟨Iff.rfl, rfl, rfl, rfl, rfl, rfl⟩

/-- What `update_or_create` does. -/
theorem updateOrCreate_cases {s' : RuleStore Condition Hash}
    (h : updateOrCreate directory s request delays = .ok s') :
    (∃ existing, getRuleForOrg s.rules (directory.getRuleHash request.condition request.projectIds)
        request.organization (s.now + delays.lookUp) = some existing ∧
      s' = { s with
        now := s.now + delays.lookUp
        rules := s.rules.map fun rule ↦
          if rule.id = existing.id then rule.extended request else rule }) ∨
    (getRuleForOrg s.rules (directory.getRuleHash request.condition request.projectIds)
        request.organization (s.now + delays.lookUp) = none ∧
      perProjectLimitReached directory s.rules (directory.getManyFromCache request.projectIds)
        request.organization (s.now + delays.lookUp + delays.check) = false ∧
      assignRuleId (s.rules ++ [newRule directory s request]) request.organization
        (s.now + delays.lookUp + delays.check + delays.assign) ≤ maxCustomRules ∧
      s' = {
        now := s.now + delays.lookUp + delays.check + delays.assign
        rules := s.rules ++ [{ newRule directory s request with
          ruleId := assignRuleId (s.rules ++ [newRule directory s request]) request.organization
            (s.now + delays.lookUp + delays.check + delays.assign)
          projects := directory.getManyFromCache request.projectIds }]
        nextId := s.nextId + 1 }) := by
  rw [updateOrCreate] at h
  simp only at h
  split at h
  next existing hexisting => exact Or.inl ⟨existing, hexisting, (Except.ok.inj h).symm⟩
  next hnone =>
    split at h
    next => exact absurd h (by simp)
    next hlimit =>
      split at h
      next => exact absurd h (by simp)
      next hmany =>
        split at h
        next => exact absurd h (by simp)
        next =>
          exact Or.inr ⟨hnone, by simpa using hlimit, not_lt.mp hmany, (Except.ok.inj h).symm⟩

omit [DecidableEq Hash] in
theorem isLeast_new (hruleId : rule.ruleId = 0) :
    IsLeast {ruleId | 1 ≤ ruleId ∧ ∀ other ∈ rules, other.organization = organization →
      other.ActiveAt now → other.ruleId ≠ ruleId}
      (assignRuleId (rules ++ [rule]) organization now) := by
  have hleast := isLeast_assignRuleId organization now
    (mem_append_right rules (mem_singleton_self rule)) hruleId
  convert hleast using 1
  ext ruleId
  refine and_congr_right fun hpositive ↦ ?_
  rw [takenIds, mem_map]
  constructor
  · rintro hfree ⟨other, hother, hid⟩
    obtain ⟨hmem, hactive⟩ := mem_filter.mp hother
    rw [decide_eq_true_eq] at hactive
    rcases mem_append.mp hmem with hold | hnew
    · exact hfree other hold hactive.1 hactive.2 hid
    · rw [mem_singleton.mp hnew] at hid
      omega
  · intro hfree other hother horganization hactive hid
    exact hfree ⟨other, mem_filter.mpr ⟨mem_append_left _ hother,
      decide_eq_true ⟨horganization, hactive⟩⟩, hid⟩

theorem consistent_create {checked assigned : ℤ} (hs : Tidy s)
    (h : Consistent directory s.now s.rules)
    (hnone : getRuleForOrg s.rules (directory.getRuleHash request.condition request.projectIds)
      request.organization now = none)
    (hlimit : perProjectLimitReached directory s.rules
      (directory.getManyFromCache request.projectIds) request.organization checked = false)
    (hmany : assignRuleId (s.rules ++ [newRule directory s request]) request.organization assigned ≤
      maxCustomRules)
    (hnow : s.now ≤ now) (hchecked : now ≤ checked) (hassigned : checked ≤ assigned) :
    Consistent directory assigned (s.rules ++ [{ newRule directory s request with
      ruleId := assignRuleId (s.rules ++ [newRule directory s request]) request.organization
        assigned
      projects := directory.getManyFromCache request.projectIds }]) := by
  have hleast : IsLeast {ruleId | 1 ≤ ruleId ∧ ∀ other ∈ s.rules,
      other.organization = request.organization → other.ActiveAt assigned →
      other.ruleId ≠ ruleId} (assignRuleId (s.rules ++ [newRule directory s request])
        request.organization assigned) := isLeast_new rfl
  refine (h.of_le (hnow.trans (hchecked.trans hassigned))).append ⟨hleast.1.1, hmany⟩ ?_ ?_
  · intro other hother hactive horganization
    refine ⟨hleast.1.2 other hother horganization hactive, fun hhash ↦ ?_⟩
    have hfound := find?_eq_none.mp hnone other hother
    rw [decide_eq_true_eq] at hfound
    exact hfound ⟨horganization, hhash, hactive.of_le (hchecked.trans hassigned)⟩
  · intro project hproject happlies
    have hlt : numActiveRulesForProject directory s.rules project checked <
        maxCustomRulesPerProject := by
      refine lt_of_perProjectLimitReached_eq_false hlimit ?_
      rw [CustomRule.AppliesTo] at happlies
      split at happlies
      next horg =>
        have hnil : request.projectIds = [] := isEmpty_iff.mp horg
        refine Or.inr ⟨?_, happlies.symm, hproject⟩
        refine eq_nil_iff_forall_not_mem.mpr fun other hother ↦ ?_
        have hmem := directory.mem_of_mem_getManyFromCache _ other hother
        rw [hnil] at hmem
        exact absurd hmem not_mem_nil
      next => exact Or.inl happlies
    have hstart : ∀ rule ∈ s.rules, rule.startDate ≤ checked := fun rule hrule ↦
      (hs.start_le rule hrule).trans (hnow.trans hchecked)
    have hmono : (activeRulesOf directory s.rules project assigned).length ≤
        (activeRulesOf directory s.rules project checked).length := by
      refine (monotone_filter_right s.rules fun rule hrule ↦ ?_).length_le
      rw [decide_eq_true_eq] at hrule ⊢
      exact ⟨hrule.1.of_le hassigned, hrule.2⟩
    exact hmono.trans_lt ((length_activeRulesOf_le hstart).trans_lt hlt)

/-- What is kept by every event. -/
structure RulesInvariant (directory : Directory Condition Hash) (s : RuleStore Condition Hash) :
    Prop where
  tidy : Tidy s
  consistent : Consistent directory s.now s.rules

omit [DecidableEq Hash] in
theorem Tidy.map {change : CustomRule Condition Hash → CustomRule Condition Hash} (hs : Tidy s)
    (hle : s.now ≤ now) (hid : ∀ rule, (change rule).id = rule.id)
    (hstart : ∀ rule, (change rule).startDate = rule.startDate)
    (hsame : ∀ rule ∈ s.rules, SameAt now rule (change rule)) :
    Tidy { s with now := now, rules := s.rules.map change } := by
  refine ⟨?_, fun rule hrule ↦ ?_, fun rule hrule ↦ ?_, fun rule hrule horg ↦ ?_⟩
  · have hids : (s.rules.map change).map CustomRule.id = s.rules.map CustomRule.id := by
      rw [map_map]
      exact map_congr_left fun rule _ ↦ hid rule
    rw [hids]
    exact hs.nodup
  · obtain ⟨old, hold, rfl⟩ := mem_map.mp hrule
    rw [hid]
    exact hs.id_lt old hold
  · obtain ⟨old, hold, rfl⟩ := mem_map.mp hrule
    rw [hstart]
    exact (hs.start_le old hold).trans hle
  · obtain ⟨old, hold, rfl⟩ := mem_map.mp hrule
    rw [(hsame old hold).isOrgLevel] at horg
    rw [(hsame old hold).projects]
    exact hs.projects_eq_nil old hold horg

omit [DecidableEq Hash] in
theorem rulesInvariant_deactivateEndedBefore {time : ℤ} (hs : RulesInvariant directory s)
    (hle : time ≤ s.now) : RulesInvariant directory (deactivateEndedBefore s time) := by
  have hsame := fun rule (_ : rule ∈ s.rules) ↦ sameAt_deactivated hle rule
  refine ⟨hs.tidy.map le_rfl (fun rule ↦ ?_) (fun rule ↦ ?_) hsame, hs.consistent.map hsame⟩
  · split <;> rfl
  · split <;> rfl

theorem rulesInvariant_updateOrCreate {s' : RuleStore Condition Hash}
    (hs : RulesInvariant directory s) (h : updateOrCreate directory s request delays = .ok s') :
    RulesInvariant directory s' ∧ CreatesSmallestFree s s' := by
  rcases updateOrCreate_cases h with ⟨existing, hexisting, rfl⟩ | ⟨hnone, hlimit, hmany, rfl⟩
  · have hle : s.now ≤ s.now + delays.lookUp := by omega
    have hsame := sameAt_extended request hs.tidy hexisting
    refine ⟨⟨hs.tidy.map hle (fun rule ↦ ?_) (fun rule ↦ ?_) hsame,
      (hs.consistent.of_le hle).map hsame⟩, fun rule hrule hnew ↦ ?_⟩
    · split <;> rfl
    · split <;> rfl
    · obtain ⟨old, hold, rfl⟩ := mem_map.mp hrule
      refine absurd ?_ (hnew old hold)
      split <;> rfl
  · have hlookUp : s.now ≤ s.now + delays.lookUp := by omega
    have hcheck : s.now + delays.lookUp ≤ s.now + delays.lookUp + delays.check := by omega
    have hassign : s.now + delays.lookUp + delays.check ≤
        s.now + delays.lookUp + delays.check + delays.assign := by omega
    have hnow := hlookUp.trans (hcheck.trans hassign)
    refine ⟨⟨⟨?_, fun rule hrule ↦ ?_, fun rule hrule ↦ ?_, fun rule hrule horg ↦ ?_⟩,
      consistent_create hs.tidy hs.consistent hnone hlimit hmany hlookUp hcheck hassign⟩,
      fun rule hrule hnew ↦ ?_⟩
    · show ((s.rules ++ [_]).map CustomRule.id).Nodup
      rw [map_append, map_singleton]
      refine nodup_append.mpr ⟨hs.tidy.nodup, nodup_singleton _, ?_⟩
      intro id hid other hother heq
      obtain ⟨old, hold, rfl⟩ := mem_map.mp hid
      rw [mem_singleton.mp hother] at heq
      exact absurd heq (hs.tidy.id_lt old hold).ne
    · rcases mem_append.mp hrule with hold | hlast
      · exact (hs.tidy.id_lt rule hold).trans (Nat.lt_succ_self _)
      · rw [mem_singleton.mp hlast]
        exact Nat.lt_succ_self _
    · rcases mem_append.mp hrule with hold | hlast
      · exact (hs.tidy.start_le rule hold).trans hnow
      · rw [mem_singleton.mp hlast]
        exact hnow
    · rcases mem_append.mp hrule with hold | hlast
      · exact hs.tidy.projects_eq_nil rule hold horg
      · rw [mem_singleton.mp hlast] at horg ⊢
        refine eq_nil_iff_forall_not_mem.mpr fun other hother ↦ ?_
        have hmem := directory.mem_of_mem_getManyFromCache _ other hother
        rw [isEmpty_iff.mp horg] at hmem
        exact absurd hmem not_mem_nil
    · rcases mem_append.mp hrule with hold | hlast
      · exact absurd rfl (hnew rule hold)
      · rw [mem_singleton.mp hlast]
        exact isLeast_new rfl

theorem rulesInvariant_ruleStep (hs : RulesInvariant directory s) (event : RuleEvent Condition) :
    RulesInvariant directory (ruleStep directory s event) ∧
      CreatesSmallestFree s (ruleStep directory s event) := by
  have hkept : ∀ s', s'.rules.map CustomRule.id = s.rules.map CustomRule.id →
      CreatesSmallestFree s s' := by
    intro s' hids rule hrule hnew
    have hmem : rule.id ∈ s.rules.map CustomRule.id := hids ▸ mem_map_of_mem hrule
    obtain ⟨old, hold, hid⟩ := mem_map.mp hmem
    exact absurd hid (hnew old hold)
  have hdeactivated : ∀ time, (deactivateEndedBefore s time).rules.map CustomRule.id =
      s.rules.map CustomRule.id := by
    intro time
    rw [deactivateEndedBefore, map_map]
    refine map_congr_left fun rule _ ↦ ?_
    rw [Function.comp_apply]
    split <;> rfl
  cases event with
  | tick duration =>
    have hle : s.now ≤ s.now + duration := by omega
    have hstart : ∀ rule ∈ s.rules, rule.startDate ≤ s.now + duration :=
      fun rule hrule ↦ (hs.tidy.start_le rule hrule).trans hle
    exact ⟨⟨⟨hs.tidy.nodup, hs.tidy.id_lt, hstart, hs.tidy.projects_eq_nil⟩,
      hs.consistent.of_le hle⟩, hkept _ rfl⟩
  | updateOrCreate request delays =>
    cases hcall : updateOrCreate directory s request delays with
    | ok s' =>
      rw [ruleStep, hcall]
      exact rulesInvariant_updateOrCreate hs hcall
    | error error =>
      rw [ruleStep, hcall]
      exact ⟨hs, hkept _ rfl⟩
  | deactivateOldRules =>
    refine ⟨rulesInvariant_deactivateEndedBefore hs ?_, hkept _ (hdeactivated _)⟩
    rw [oneMinute]
    omega
  | deactivateExpiredRules =>
    exact ⟨rulesInvariant_deactivateEndedBefore hs le_rfl, hkept _ (hdeactivated _)⟩

/-- After any calls, the active rules of an organization have different ids and hashes, no active
project has too many of them, `get_project_rules` drops none, and the next new rule gets the
smallest id that is free. -/
theorem customRules_consistent (directory : Directory Condition Hash) (start : ℤ)
    (events : List (RuleEvent Condition)) :
    let s := (customRules directory start).run events
    Consistent directory s.now s.rules ∧ DropsNone directory s.now s.rules ∧
      ∀ event, CreatesSmallestFree s (ruleStep directory s event) := by
  have hinit : RulesInvariant directory (customRules directory start).init := by
    refine ⟨⟨nodup_nil, ?_, ?_, ?_⟩, ⟨?_, List.Pairwise.nil, fun project _ ↦ Nat.zero_le _⟩⟩
    all_goals exact fun rule hrule ↦ absurd hrule not_mem_nil
  have hs := (customRules directory start).run_invariant hinit
    (fun s event hs ↦ (rulesInvariant_ruleStep hs event).1) events
  exact ⟨hs.consistent, hs.consistent.dropsNone hs.tidy,
    fun event ↦ (rulesInvariant_ruleStep hs event).2⟩

/-! ### A project that is not active -/

def pendingProjects : Directory ℕ ℕ where
  getRuleHash condition _ := condition
  organizationOf project := project
  isActive _ := false
  projectSet organization := [organization]
  mem_projectSet _ _ := mem_singleton
  getManyFromCache projectIds := projectIds
  mem_of_mem_getManyFromCache _ _ hproject := hproject

def orgRequest (condition : ℕ) : RuleEvent ℕ :=
  .updateOrCreate ⟨condition, 1, [], 0, 0, 0, ""⟩ ⟨0, 0, 0⟩

theorem length_activeRulesOf_pending : (activeRulesOf pendingProjects
    ((customRules pendingProjects 0).run ((List.range 51).map orgRequest)).rules 0 0).length =
      51 := by
  decide +kernel

/-- A project that is not active gets the rules of its organization without a limit. -/
theorem not_limit : ¬ ∀ (directory : Directory ℕ ℕ) (start : ℤ) (events : List (RuleEvent ℕ))
    (project : ℕ), (activeRulesOf directory ((customRules directory start).run events).rules project
      ((customRules directory start).run events).now).length ≤ maxCustomRulesPerProject := by
  intro h
  have hlimit := h pendingProjects 0 ((List.range 51).map orgRequest) 0
  have hnow : ((customRules pendingProjects 0).run ((List.range 51).map orgRequest)).now = 0 := by
    decide +kernel
  rw [hnow, length_activeRulesOf_pending] at hlimit
  exact absurd hlimit (by decide)

end Sentry.DynamicSampling
