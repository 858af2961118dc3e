import Sentry.Library.Machine
import Mathlib.Algebra.Order.Field.Rat

/-!
# Custom sampling rules

The rules of all organizations are rows of one table. A rule is active until its end, which a
further request for the same condition may put off, and is then deactivated at some time. A new
rule needs a free place in every project it is for, and gets the smallest id that no active rule of
its organization has. Every call reads the clock several times.
-/

namespace Sentry.DynamicSampling

variable {Condition Hash : Type} [DecidableEq Hash]

def maxCustomRules : ℕ := 2000

def maxCustomRulesPerProject : ℕ := 50

/-- The grace period of `deactivate_old_rules`, in microseconds. -/
def oneMinute : ℤ := 60000000

/-- `CustomDynamicSamplingRule` with its projects; times are in microseconds. -/
structure CustomRule (Condition Hash : Type) where
  id : ℕ
  organization : ℕ
  projects : List ℕ
  isActive : Bool
  isOrgLevel : Bool
  ruleId : ℕ
  condition : Condition
  sampleRate : ℚ
  startDate : ℤ
  endDate : ℤ
  numSamples : ℕ
  conditionHash : Hash
  query : String

/-- The arguments of `update_or_create`, without the start. -/
structure RuleRequest (Condition : Type) where
  condition : Condition
  endDate : ℤ
  projectIds : List ℕ
  organization : ℕ
  numSamples : ℕ
  sampleRate : ℚ
  query : String

/-- The projects and organizations, and the hash of a condition with projects. -/
structure Directory (Condition Hash : Type) where
  getRuleHash : Condition → List ℕ → Hash
  organizationOf : ℕ → ℕ
  isActive : ℕ → Bool
  projectSet : ℕ → List ℕ
  mem_projectSet : ∀ organization project,
    project ∈ projectSet organization ↔ organizationOf project = organization
  getManyFromCache : List ℕ → List ℕ
  mem_of_mem_getManyFromCache : ∀ projectIds, ∀ project ∈ getManyFromCache projectIds,
    project ∈ projectIds

inductive RuleError
  | tooManyRules
  | integrityError

def CustomRule.ActiveAt (rule : CustomRule Condition Hash) (now : ℤ) : Prop :=
  rule.isActive = true ∧ now < rule.endDate

instance (rule : CustomRule Condition Hash) (now : ℤ) : Decidable (rule.ActiveAt now) :=
  inferInstanceAs (Decidable (_ ∧ _))

def getRuleForOrg (rules : List (CustomRule Condition Hash)) (hash : Hash) (organization : ℕ)
    (now : ℤ) : Option (CustomRule Condition Hash) :=
  rules.find? fun rule ↦
    rule.organization = organization ∧ rule.conditionHash = hash ∧ rule.ActiveAt now

/-- The sub-query of `assign_rule_id` over all rows, the new one too, with the ids of the active
rules of the organization left out. -/
def assignRuleId (rules : List (CustomRule Condition Hash)) (organization : ℕ) (now : ℤ) : ℕ :=
  let taken := (rules.filter fun rule ↦ rule.organization = organization ∧ rule.ActiveAt now).map
    CustomRule.ruleId
  match ((rules.map CustomRule.ruleId).filter fun ruleId ↦ ruleId + 1 ∉ taken).min? with
  | some ruleId => ruleId + 1
  | none => 1

def numActiveRulesForProject (directory : Directory Condition Hash)
    (rules : List (CustomRule Condition Hash)) (project : ℕ) (now : ℤ) : ℕ :=
  let numOrgRules := rules.countP fun rule ↦ rule.isOrgLevel ∧
    rule.organization = directory.organizationOf project ∧ rule.ActiveAt now ∧ rule.startDate ≤ now
  let numProjRules := rules.countP fun rule ↦ ¬ rule.isOrgLevel ∧ project ∈ rule.projects ∧
    rule.ActiveAt now ∧ rule.startDate ≤ now
  numProjRules + numOrgRules

def perProjectLimitReached (directory : Directory Condition Hash)
    (rules : List (CustomRule Condition Hash)) (projects : List ℕ) (organization : ℕ) (now : ℤ) :
    Bool :=
  let projects := if projects = [] then
    (directory.projectSet organization).filter directory.isActive else projects
  projects.any fun project ↦
    maxCustomRulesPerProject ≤ numActiveRulesForProject directory rules project now

def getProjectRules (directory : Directory Condition Hash)
    (rules : List (CustomRule Condition Hash)) (project : ℕ) (now : ℤ) :
    List (CustomRule Condition Hash) :=
  let orgRules := (rules.filter fun rule ↦ rule.isOrgLevel ∧
    rule.organization = directory.organizationOf project ∧ rule.ActiveAt now ∧
    rule.startDate < now).take (maxCustomRulesPerProject + 1)
  let projectRules := (rules.filter fun rule ↦ project ∈ rule.projects ∧ rule.ActiveAt now ∧
    rule.startDate < now).take (maxCustomRulesPerProject + 1)
  let union := projectRules ++ orgRules.filter fun rule ↦ ∀ other ∈ projectRules, other.id ≠ rule.id
  (union.take (maxCustomRulesPerProject + 1)).take maxCustomRulesPerProject

structure RuleStore (Condition Hash : Type) where
  now : ℤ
  rules : List (CustomRule Condition Hash)
  nextId : ℕ

/-- How long it takes until the rule is looked up, the limit is checked and the id is assigned. -/
structure Delays where
  lookUp : ℕ
  check : ℕ
  assign : ℕ

/-- The existing rule of `update_or_create`. -/
def CustomRule.extended (rule : CustomRule Condition Hash) (request : RuleRequest Condition) :
    CustomRule Condition Hash :=
  { rule with
    endDate := max request.endDate rule.endDate
    numSamples := max request.numSamples rule.numSamples
    sampleRate := max request.sampleRate rule.sampleRate }

/-- The new rule of `update_or_create`, which has no id of its organization yet. -/
def newRule (directory : Directory Condition Hash) (s : RuleStore Condition Hash)
    (request : RuleRequest Condition) : CustomRule Condition Hash where
  id := s.nextId
  organization := request.organization
  projects := []
  isActive := true
  isOrgLevel := request.projectIds.isEmpty
  ruleId := 0
  condition := request.condition
  sampleRate := request.sampleRate
  startDate := s.now
  endDate := request.endDate
  numSamples := request.numSamples
  conditionHash := directory.getRuleHash request.condition request.projectIds
  query := request.query

/-- `update_or_create` with the current time as the start. -/
def updateOrCreate (directory : Directory Condition Hash) (s : RuleStore Condition Hash)
    (request : RuleRequest Condition) (delays : Delays) :
    Except RuleError (RuleStore Condition Hash) :=
  let lookedUp := s.now + delays.lookUp
  let checked := lookedUp + delays.check
  let assigned := checked + delays.assign
  let hash := directory.getRuleHash request.condition request.projectIds
  match getRuleForOrg s.rules hash request.organization lookedUp with
  | some existing => .ok { s with
      now := lookedUp
      rules := s.rules.map fun rule ↦
        if rule.id = existing.id then rule.extended request else rule }
  | none =>
    let projects := directory.getManyFromCache request.projectIds
    if perProjectLimitReached directory s.rules projects request.organization checked then
      .error .tooManyRules
    else
      let rule := newRule directory s request
      let ruleId := assignRuleId (s.rules ++ [rule]) request.organization assigned
      if maxCustomRules < ruleId then .error .tooManyRules
      -- A project that is listed twice violates the uniqueness of the rows for the projects.
      else if ¬ projects.Nodup then .error .integrityError
      else .ok {
        now := assigned
        rules := s.rules ++ [{ rule with ruleId := ruleId, projects := projects }]
        nextId := s.nextId + 1 }

def deactivateEndedBefore (s : RuleStore Condition Hash) (time : ℤ) : RuleStore Condition Hash :=
  { s with rules := s.rules.map fun rule ↦
      if rule.endDate < time then { rule with isActive := false } else rule }

inductive RuleEvent (Condition : Type)
  | tick (duration : ℕ)
  | updateOrCreate (request : RuleRequest Condition) (delays : Delays)
  | deactivateOldRules
  | deactivateExpiredRules

def ruleStep (directory : Directory Condition Hash) (s : RuleStore Condition Hash) :
    RuleEvent Condition → RuleStore Condition Hash
  | .tick duration => { s with now := s.now + duration }
  | .updateOrCreate request delays =>
    match updateOrCreate directory s request delays with
    | .ok s' => s'
    | .error _ => s
  | .deactivateOldRules => deactivateEndedBefore s (s.now - oneMinute)
  | .deactivateExpiredRules => deactivateEndedBefore s s.now

/-- The table is empty at first. -/
def customRules (directory : Directory Condition Hash) (start : ℤ) :
    Library.Machine (RuleStore Condition Hash) (RuleEvent Condition) where
  init := ⟨start, [], 0⟩
  step := ruleStep directory

end Sentry.DynamicSampling
