import Sentry.Library.Sweep
import Sentry.Ownership.Grammar

/-!
# Removing deleted owners

`ownership/grammar.py`. `remove_deleted_owners_from_schema` removes owners and rules while it goes
over them, so that the one after a removed one is passed by. What is left is what should be left
just if no two deleted owners stand next to each other in a rule, and no rule with a deleted owner
comes after one with deleted owners only (`removeDeletedOwnersFromSchema_iff`).
-/

namespace Sentry.Ownership

open Library List

variable (ownersId : List (List ℕ))

def deleted (owner : Owner) : Bool := owner.identifier ∉ ownersId

def removeDeletedOwners (rule : Rule) : Rule :=
  { rule with owners := sweep id (deleted ownersId) rule.owners 0 }

def removesRule (rule : Rule) : Bool :=
  rule.owners ≠ [] ∧ (removeDeletedOwners ownersId rule).owners = []

/-- `remove_deleted_owners_from_schema` -/
def removeDeletedOwnersFromSchema (rules : List Rule) : List Rule :=
  sweep (removeDeletedOwners ownersId) (removesRule ownersId) rules 0

def Rule.resolvable (rule : Rule) : Rule :=
  { rule with owners := rule.owners.filter (!deleted ownersId ·) }

/-- The rules with an owner that resolves, with just those. -/
def resolvableRules (rules : List Rule) : List Rule :=
  (rules.map (Rule.resolvable ownersId)).filter (·.owners ≠ [])

def Rule.Scattered (rule : Rule) : Prop :=
  rule.owners.IsChain fun owner next ↦ ¬ (deleted ownersId owner ∧ deleted ownersId next)

/-- Every rule has owners, and neither two deleted owners stand next to each other nor a rule with a
deleted owner next to one before it that has no others. -/
structure Separated (rules : List Rule) : Prop where
  owners : ∀ rule ∈ rules, rule.owners ≠ []
  scattered : ∀ rule ∈ rules, rule.Scattered ownersId
  next : rules.IsChain fun rule next ↦
    (∀ owner ∈ rule.owners, deleted ownersId owner) →
      ∀ owner ∈ next.owners, ¬ deleted ownersId owner

/-- A rule that is as it should be. -/
structure Rule.Resolved (rule : Rule) : Prop where
  owners : rule.owners ≠ []
  resolves : ∀ owner ∈ rule.owners, ¬ deleted ownersId owner

variable {ownersId}

variable {rule : Rule}

theorem removeDeletedOwners_of_scattered (h : rule.Scattered ownersId) :
    removeDeletedOwners ownersId rule = rule.resolvable ownersId := by
  rw [removeDeletedOwners, sweep_id_of_isChain h]
  rfl

theorem scattered_iff (rule : Rule) :
    rule.Scattered ownersId ↔
      ∀ owner ∈ (removeDeletedOwners ownersId rule).owners, ¬ deleted ownersId owner := by
  have hperm : (removeDeletedOwners ownersId rule).owners.Perm
      (swept id (deleted ownersId) rule.owners) := sweep_perm [] rule.owners
  rw [Rule.Scattered, ← forall_mem_swept_iff]
  exact forall_congr' fun owner ↦ by rw [hperm.mem_iff]

theorem resolvable_owners_eq_nil_iff (rule : Rule) :
    (rule.resolvable ownersId).owners = [] ↔ ∀ owner ∈ rule.owners, deleted ownersId owner := by
  simp [Rule.resolvable, filter_eq_nil_iff]

theorem removesRule_iff (rule : Rule) :
    removesRule ownersId rule ↔
      rule.owners ≠ [] ∧ rule.Scattered ownersId ∧
        ∀ owner ∈ rule.owners, deleted ownersId owner := by
  unfold removesRule
  rw [decide_eq_true_iff]
  refine and_congr_right fun _ ↦ ⟨fun hnil ↦ ?_, fun h ↦ ?_⟩
  · have hscattered : rule.Scattered ownersId := by
      rw [scattered_iff, hnil]
      simp
    rw [removeDeletedOwners_of_scattered hscattered] at hnil
    exact ⟨hscattered, (resolvable_owners_eq_nil_iff rule).mp hnil⟩
  · rw [removeDeletedOwners_of_scattered h.1]
    exact (resolvable_owners_eq_nil_iff rule).mpr h.2

theorem Rule.Resolved.scattered (h : rule.Resolved ownersId) : rule.Scattered ownersId := by
  refine List.Pairwise.isChain (List.Pairwise.imp_of_mem (R := fun _ _ ↦ True) ?_ ?_)
  · exact fun howner _ _ hboth ↦ h.resolves _ howner hboth.1
  · exact pairwise_of_forall fun _ _ ↦ trivial

theorem Rule.Resolved.resolvable_eq (h : rule.Resolved ownersId) :
    rule.resolvable ownersId = rule := by
  have howners : rule.owners.filter (!deleted ownersId ·) = rule.owners :=
    filter_eq_self.mpr fun owner howner ↦ by simpa using h.resolves owner howner
  rw [Rule.resolvable, howners]

variable {rules : List Rule}

theorem resolved_of_mem_resolvableRules
    (h : rule ∈ resolvableRules ownersId rules) : rule.Resolved ownersId := by
  simp only [resolvableRules, mem_filter, mem_map] at h
  obtain ⟨⟨source, -, rfl⟩, howners⟩ := h
  refine ⟨by simpa using howners, fun owner howner ↦ ?_⟩
  simpa using (mem_filter.mp howner).2

theorem separated_cons_iff (rule : Rule) (rules : List Rule) :
    Separated ownersId (rule :: rules) ↔
      (rule.owners ≠ [] ∧ rule.Scattered ownersId) ∧
        (∀ next ∈ rules.head?, (∀ owner ∈ rule.owners, deleted ownersId owner) →
          ∀ owner ∈ next.owners, ¬ deleted ownersId owner) ∧
        Separated ownersId rules := by
  constructor
  · intro h
    have howners := forall_mem_cons.mp h.owners
    have hscattered := forall_mem_cons.mp h.scattered
    have hnext := isChain_cons.mp h.next
    exact ⟨⟨howners.1, hscattered.1⟩, hnext.1, howners.2, hscattered.2, hnext.2⟩
  · intro h
    exact ⟨forall_mem_cons.mpr ⟨h.1.1, h.2.2.owners⟩,
      forall_mem_cons.mpr ⟨h.1.2, h.2.2.scattered⟩,
      isChain_cons.mpr ⟨h.2.1, h.2.2.next⟩⟩

theorem separated_cons_of_kept (rules : List Rule)
    (h : (removeDeletedOwners ownersId rule).Resolved ownersId) :
    Separated ownersId (rule :: rules) ↔ Separated ownersId rules := by
  have hscattered := (scattered_iff rule).mpr h.resolves
  rw [removeDeletedOwners_of_scattered hscattered] at h
  have hsome : ¬ ∀ owner ∈ rule.owners, deleted ownersId owner := fun hall ↦
    h.owners ((resolvable_owners_eq_nil_iff rule).mpr hall)
  have howners : rule.owners ≠ [] := fun hnil ↦ hsome (by simp [hnil])
  rw [separated_cons_iff]
  exact ⟨fun hcons ↦ hcons.2.2,
    fun hrules ↦ ⟨⟨howners, hscattered⟩, fun _ _ hall ↦ absurd hall hsome, hrules⟩⟩

theorem separated_cons_of_resolved (rules : List Rule) (h : rule.Resolved ownersId) :
    Separated ownersId (rule :: rules) ↔ Separated ownersId rules := by
  refine separated_cons_of_kept rules ?_
  rwa [removeDeletedOwners_of_scattered h.scattered, h.resolvable_eq]

theorem separated_of_swept
    (h : ∀ rule ∈ swept (removeDeletedOwners ownersId) (removesRule ownersId) rules,
      rule.Resolved ownersId) :
    Separated ownersId rules := by
  fun_induction swept (removeDeletedOwners ownersId) (removesRule ownersId) rules with
  | case1 => exact ⟨by simp, by simp, by simp⟩
  | case2 rule hremoves =>
    have hrule := (removesRule_iff rule).mp hremoves
    exact ⟨by simpa using hrule.1, by simpa using hrule.2.1, by simp⟩
  | case3 rule hremoves =>
    rw [separated_cons_of_kept [] (h _ (mem_singleton_self _))]
    exact ⟨by simp, by simp, by simp⟩
  | case4 rule next rest hremoves ih =>
    have hrule := (removesRule_iff rule).mp hremoves
    rw [forall_mem_cons] at h
    rw [separated_cons_iff, separated_cons_of_resolved rest h.1]
    refine ⟨⟨hrule.1, hrule.2.1⟩, fun other hother _ ↦ ?_, ih h.2⟩
    rw [head?_cons, Option.mem_some_iff] at hother
    exact hother ▸ h.1.resolves
  | case5 rule next rest hremoves ih =>
    rw [forall_mem_cons] at h
    exact (separated_cons_of_kept _ h.1).mpr (ih h.2)

theorem resolvableRules_cons_of_removes (rules : List Rule) (h : removesRule ownersId rule) :
    resolvableRules ownersId (rule :: rules) = resolvableRules ownersId rules := by
  have hnil := (resolvable_owners_eq_nil_iff rule).mpr ((removesRule_iff rule).mp h).2.2
  simp [resolvableRules, hnil]

theorem resolvableRules_cons_of_ne_nil (rules : List Rule)
    (h : (rule.resolvable ownersId).owners ≠ []) :
    resolvableRules ownersId (rule :: rules) =
      rule.resolvable ownersId :: resolvableRules ownersId rules := by
  simp [resolvableRules, h]

theorem resolvableRules_cons_of_kept (rules : List Rule) (howners : rule.owners ≠ [])
    (hscattered : rule.Scattered ownersId) (h : ¬ removesRule ownersId rule) :
    resolvableRules ownersId (rule :: rules) =
      removeDeletedOwners ownersId rule :: resolvableRules ownersId rules := by
  rw [removeDeletedOwners_of_scattered hscattered]
  refine resolvableRules_cons_of_ne_nil rules fun hnil ↦ h ((removesRule_iff rule).mpr ?_)
  exact ⟨howners, hscattered, (resolvable_owners_eq_nil_iff rule).mp hnil⟩

theorem swept_of_separated (h : Separated ownersId rules) :
    swept (removeDeletedOwners ownersId) (removesRule ownersId) rules =
      resolvableRules ownersId rules := by
  fun_induction swept (removeDeletedOwners ownersId) (removesRule ownersId) rules with
  | case1 => rfl
  | case2 rule hremoves =>
    rw [resolvableRules_cons_of_removes [] hremoves]
    rfl
  | case3 rule hremoves =>
    have hrule := ((separated_cons_iff rule []).mp h).1
    rw [resolvableRules_cons_of_kept [] hrule.1 hrule.2 hremoves]
    rfl
  | case4 rule next rest hremoves ih =>
    obtain ⟨-, hnext, hrest⟩ := (separated_cons_iff rule _).mp h
    have hresolved : next.Resolved ownersId :=
      ⟨hrest.owners next mem_cons_self, hnext next rfl ((removesRule_iff rule).mp hremoves).2.2⟩
    have heq := hresolved.resolvable_eq
    have howners : (next.resolvable ownersId).owners ≠ [] := by
      rw [heq]
      exact hresolved.owners
    rw [ih ((separated_cons_of_resolved rest hresolved).mp hrest),
      resolvableRules_cons_of_removes _ hremoves, resolvableRules_cons_of_ne_nil rest howners, heq]
  | case5 rule next rest hremoves ih =>
    obtain ⟨hrule, -, hrest⟩ := (separated_cons_iff rule _).mp h
    rw [ih hrest, resolvableRules_cons_of_kept _ hrule.1 hrule.2 hremoves]

/-- What is left is the rules with an owner that resolves, each with all of them, in their order,
just if every rule has owners, no two deleted owners stand next to each other, and behind a rule
with deleted owners only there is a rule with none. -/
theorem removeDeletedOwnersFromSchema_iff (ownersId : List (List ℕ)) (rules : List Rule) :
    removeDeletedOwnersFromSchema ownersId rules = resolvableRules ownersId rules ↔
      Separated ownersId rules := by
  have hperm : (removeDeletedOwnersFromSchema ownersId rules).Perm
      (swept (removeDeletedOwners ownersId) (removesRule ownersId) rules) := sweep_perm [] rules
  constructor
  · refine fun heq ↦ separated_of_swept fun rule hrule ↦ ?_
    exact resolved_of_mem_resolvableRules (heq ▸ hperm.mem_iff.mpr hrule)
  · intro h
    have hswept := swept_of_separated h
    rw [← hswept]
    refine sweep_eq [] rules fun rule _ hremoves hmem ↦ ?_
    rw [nil_append, hswept] at hmem
    exact (resolved_of_mem_resolvableRules hmem).owners (of_decide_eq_true hremoves).2

/-- A rule with two users, neither of whom resolves. -/
def ruleOfTwoDeleted : Rule where
  matcher := ⟨path, [42]⟩
  owners := [⟨.user, [97]⟩, ⟨.user, [98]⟩]

/-- The second user stays, and with it the rule. -/
theorem twoDeleted_not_removed :
    removeDeletedOwnersFromSchema [] [ruleOfTwoDeleted] ≠
      resolvableRules [] [ruleOfTwoDeleted] := by
  have hleft : removeDeletedOwnersFromSchema [] [ruleOfTwoDeleted] =
      [{ ruleOfTwoDeleted with owners := [⟨.user, [98]⟩] }] := by
    simp [removeDeletedOwnersFromSchema, removeDeletedOwners, removesRule, sweep, deleted,
      ruleOfTwoDeleted]
  have hresolvable : resolvableRules [] [ruleOfTwoDeleted] = [] := by
    rfl
  rw [hleft, hresolvable]
  exact cons_ne_nil _ _

end Sentry.Ownership
