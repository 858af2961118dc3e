import Mathlib.Data.Fintype.Card
import Mathlib.Data.Set.Finite.Basic
import Mathlib.Data.List.Sort
import Mathlib.Data.String.Basic
import Mathlib.Logic.Relation
import Mathlib.Order.WellFounded

/-!
# The order of the models of a backup

`sorted_dependencies` lists a model when its dependencies among the models are listed, in passes
over the models that are left. After a pass that lists none, each model that is left depends on
another one that is left, so there is a cycle (`exists_cycle`); after any other, fewer are left.
-/

namespace Sentry.Backup

open List

inductive RelocationScope
  | Excluded | User | Organization | Config | Global
  deriving DecidableEq

structure ForeignField (Model : Type*) where
  model : Model
  nullable : Bool

/-- The relations of a model. Its `dangling` flag, which changes, is kept apart. -/
structure ModelRelations (Model : Type*) where
  foreignKeys : List (ForeignField Model)
  model : Model
  relocationDependencies : Finset Model
  relocationScope : RelocationScope ⊕ Finset RelocationScope

/-- The values of the dictionary of the relations by the names of their models. -/
structure Dependencies {Model : Type*} (getModelName : Model → String) where
  values : List (ModelRelations Model)
  nodup : (values.map fun r ↦ getModelName r.model).Nodup

section

variable {Model : Type*} [DecidableEq Model]

def ModelRelations.flatten (r : ModelRelations Model) : Finset Model :=
  (r.foreignKeys.map ForeignField.model).toFinset

def ModelRelations.getDependenciesForRelocation (r : ModelRelations Model) : Finset Model :=
  r.flatten ∪ r.relocationDependencies

/-- A pass over the models that are left. -/
structure Pass (Model : Type*) where
  modelList : List Model
  skipped : List (ModelRelations Model)
  changed : Bool

def Found (modelSet : Finset Model) (modelList : List Model) (r : ModelRelations Model) : Prop :=
  ∀ d ∈ r.getDependenciesForRelocation, d ∉ modelSet ∨ d ∈ modelList

instance (modelSet : Finset Model) (modelList : List Model) (r : ModelRelations Model) :
    Decidable (Found modelSet modelList r) :=
  inferInstanceAs (Decidable (∀ d ∈ _, _ ∨ _))

def Pass.visit (modelSet : Finset Model) (p : Pass Model) (r : ModelRelations Model) : Pass Model :=
  if Found modelSet p.modelList r then
    { p with modelList := p.modelList ++ [r.model], changed := true }
  else { p with skipped := p.skipped ++ [r] }

/-- The inner loop, which takes the models from the end. -/
def runPass (modelSet : Finset Model) (modelList : List Model)
    (remaining : List (ModelRelations Model)) : Pass Model :=
  remaining.reverse.foldl (Pass.visit modelSet) ⟨modelList, [], false⟩

variable {modelSet : Finset Model}

theorem length_skipped (l : List (ModelRelations Model)) (p : Pass Model) :
    (l.foldl (Pass.visit modelSet) p).skipped.length ≤ p.skipped.length + l.length ∧
      ((l.foldl (Pass.visit modelSet) p).changed = true ↔ p.changed = true ∨
        (l.foldl (Pass.visit modelSet) p).skipped.length < p.skipped.length + l.length) := by
  induction l generalizing p with
  | nil => simp
  | cons r l ih =>
    obtain ⟨hle, hlt⟩ := ih (p.visit modelSet r)
    rw [foldl_cons, length_cons]
    by_cases hfound : Found modelSet p.modelList r
    · have hvisit : p.visit modelSet r = ⟨p.modelList ++ [r.model], p.skipped, true⟩ :=
        if_pos hfound
      rw [hvisit] at hle hlt ⊢
      exact ⟨hle.trans (Nat.le_succ _), iff_of_true (hlt.mpr (Or.inl rfl))
        (Or.inr (Nat.lt_succ_of_le hle))⟩
    · have hvisit : p.visit modelSet r = ⟨p.modelList, p.skipped ++ [r], p.changed⟩ :=
        if_neg hfound
      rw [hvisit] at hle hlt ⊢
      rw [length_append, length_singleton] at hle hlt
      rw [hlt]
      exact ⟨by omega, or_congr_right (by omega)⟩

theorem changed_runPass_iff (modelList : List Model) (remaining : List (ModelRelations Model)) :
    (runPass modelSet modelList remaining).changed = true ↔
      (runPass modelSet modelList remaining).skipped.length < remaining.length := by
  have hchanged := (@length_skipped _ _ modelSet remaining.reverse ⟨modelList, [], false⟩).2
  rwa [length_nil, Nat.zero_add, length_reverse, or_iff_right Bool.false_ne_true] at hchanged

variable {getModelName : Model → String}

def Dependencies.models (deps : Dependencies getModelName) : List Model :=
  deps.values.map ModelRelations.model

variable (getModelName)

def byName (skipped : List (ModelRelations Model)) : List (ModelRelations Model) :=
  skipped.insertionSort fun a b ↦ getModelName a.model ≤ getModelName b.model

/-- The outer loop. -/
def sortRemaining (modelSet : Finset Model) (modelList : List Model)
    (remaining : List (ModelRelations Model)) : Except String (List Model) :=
  if remaining.isEmpty then .ok modelList
  else
    let pass := runPass modelSet modelList remaining
    if pass.changed = true then
      sortRemaining modelSet pass.modelList (byName getModelName pass.skipped)
    else
      .error ("Can't resolve dependencies for " ++ ", ".intercalate
        ((byName getModelName pass.skipped).map fun r ↦ getModelName r.model) ++
          " in serialized app list.")
termination_by remaining.length
decreasing_by
  rw [byName, length_insertionSort]
  exact (changed_runPass_iff _ _).mp ‹_›

def sortedDependencies (deps : Dependencies getModelName) : Except String (List Model) :=
  sortRemaining getModelName deps.models.toFinset []
    (deps.values.insertionSort fun a b ↦ getModelName b.model ≤ getModelName a.model)

variable {getModelName} (deps : Dependencies getModelName)

/-- The first model depends on the second, and both are in the map. -/
def DependsOn (model d : Model) : Prop :=
  ∃ r ∈ deps.values, r.model = model ∧ d ∈ r.getDependenciesForRelocation ∧ d ∈ deps.models

/-- Every model stands after its dependencies. -/
def InOrder (models : List Model) : Prop :=
  ∀ before model after, models = before ++ model :: after → ∀ d, DependsOn deps model d → d ∈ before

/-- The models are listed, skipped or still to be visited. -/
structure Pass.Sorts (todo : List (ModelRelations Model)) (p : Pass Model) : Prop where
  perm : (p.modelList ++ (p.skipped ++ todo).map ModelRelations.model).Perm deps.models
  mem : p.skipped ++ todo ⊆ deps.values
  inOrder : InOrder deps p.modelList
  unchanged : p.changed = false → ∀ r ∈ p.skipped, ¬ Found deps.models.toFinset p.modelList r

variable {deps}

theorem InOrder.concat {models : List Model} (h : InOrder deps models) {r : ModelRelations Model}
    (hr : r ∈ deps.values) (hfound : Found deps.models.toFinset models r) :
    InOrder deps (models ++ [r.model]) := by
  intro before model after heq d hd
  rcases eq_nil_or_concat' after with rfl | ⟨after, last, rfl⟩
  · obtain ⟨rfl, hmodel⟩ := append_inj' heq rfl
    obtain ⟨r', hr', hsame, hdeps, hmem⟩ := hd
    obtain rfl : r' = r := inj_on_of_nodup_map deps.nodup hr' hr
      (congrArg getModelName (hsame.trans (singleton_injective hmodel).symm))
    exact (hfound d hdeps).resolve_left (not_not.mpr (List.mem_toFinset.mpr hmem))
  · rw [← cons_append, ← append_assoc] at heq
    exact h before model after (append_inj' heq rfl).1 d hd

theorem Pass.Sorts.visit {r : ModelRelations Model} {todo : List (ModelRelations Model)}
    {p : Pass Model} (h : p.Sorts deps (r :: todo)) :
    (p.visit deps.models.toFinset r).Sorts deps todo := by
  unfold Pass.visit
  split_ifs with hfound
  · refine ⟨?_, fun other hother ↦ h.mem ?_, h.inOrder.concat (h.mem (by simp)) hfound,
      fun hchanged ↦ absurd hchanged (by simp)⟩
    · refine List.Perm.trans ?_ h.perm
      simp only [append_assoc, map_append, map_cons, cons_append, nil_append]
      exact perm_middle.symm.append_left _
    · exact mem_append.mpr ((mem_append.mp hother).imp_right (mem_cons_of_mem _))
  · refine ⟨?_, ?_, h.inOrder, fun hchanged other hother ↦ ?_⟩
    · rw [append_assoc]
      exact h.perm
    · rw [append_assoc]
      exact h.mem
    · rcases mem_append.mp hother with hold | hnew
      · exact h.unchanged hchanged other hold
      · rwa [mem_singleton.mp hnew]

theorem Pass.Sorts.foldl {todo : List (ModelRelations Model)} {p : Pass Model}
    (h : p.Sorts deps todo) : (todo.foldl (Pass.visit deps.models.toFinset) p).Sorts deps [] := by
  induction todo generalizing p with
  | nil => exact h
  | cons r todo ih => exact ih h.visit

omit [DecidableEq Model] in
/-- In a finite set where each element is related to another one there is a cycle. -/
theorem exists_cycle {models : Finset Model} (hmodels : models.Nonempty)
    {depends : Model → Model → Prop} (h : ∀ m ∈ models, ∃ d ∈ models, depends m d) :
    ∃ m, Relation.TransGen depends m m := by
  by_contra hacyclic
  let below (d m : models) : Prop := Relation.TransGen depends m d
  have : Std.Irrefl below := ⟨fun m hm ↦ hacyclic ⟨m, hm⟩⟩
  obtain ⟨first, hfirst⟩ := hmodels
  obtain ⟨m, -, hm⟩ := (Finite.wellFounded_of_trans_of_irrefl below).has_min Set.univ
    ⟨⟨first, hfirst⟩, trivial⟩
  obtain ⟨d, hd, hdepends⟩ := h m m.2
  exact hm ⟨d, hd⟩ trivial (Relation.TransGen.single hdepends)

theorem InOrder.acyclic {models : List Model} (h : InOrder deps models)
    (hperm : models.Perm deps.models) : ¬ ∃ m, Relation.TransGen (DependsOn deps) m m := by
  have hlt {m d : Model} (hd : DependsOn deps m d) : models.idxOf d < models.idxOf m := by
    obtain ⟨r, hr, rfl, -⟩ := id hd
    obtain ⟨before, after, heq, hnot⟩ :=
      eq_append_cons_of_mem (hperm.mem_iff.mpr (mem_map_of_mem hr))
    have hbefore := h before _ after heq d hd
    rw [heq, idxOf_append_of_mem hbefore, idxOf_append_of_notMem hnot]
    exact (idxOf_lt_length_of_mem hbefore).trans_le (Nat.le_add_right _ _)
  have hdecreases {m d : Model} (hd : Relation.TransGen (DependsOn deps) m d) :
      models.idxOf d < models.idxOf m := by
    induction hd with
    | single hd => exact hlt hd
    | tail _ hd ih => exact (hlt hd).trans ih
  rintro ⟨m, hm⟩
  exact (hdecreases hm).false

theorem Pass.Sorts.cyclic {p : Pass Model} (h : p.Sorts deps []) (hchanged : p.changed = false)
    (hskipped : p.skipped ≠ []) : ∃ m, Relation.TransGen (DependsOn deps) m m := by
  have hperm := h.perm
  have hvalues := h.mem
  rw [append_nil] at hperm hvalues
  have hnonempty : (p.skipped.map ModelRelations.model).toFinset.Nonempty := by
    simpa using hskipped
  refine exists_cycle hnonempty fun m hm ↦ ?_
  obtain ⟨r, hr, rfl⟩ := mem_map.mp (List.mem_toFinset.mp hm)
  have hnot := h.unchanged hchanged r hr
  unfold Found at hnot
  push Not at hnot
  obtain ⟨d, hd, hmem, hunlisted⟩ := hnot
  rw [mem_toFinset] at hmem
  refine ⟨d, List.mem_toFinset.mpr ?_, r, hvalues hr, rfl, hd, hmem⟩
  exact (mem_append.mp (hperm.mem_iff.mpr hmem)).resolve_left hunlisted

theorem sortRemaining_spec (modelList : List Model) (remaining : List (ModelRelations Model))
    (h : Pass.Sorts deps remaining ⟨modelList, [], false⟩) :
    (∃ models, sortRemaining getModelName deps.models.toFinset modelList remaining = .ok models ∧
        models.Perm deps.models ∧ InOrder deps models) ∨
      (∃ message, sortRemaining getModelName deps.models.toFinset modelList remaining =
        .error message) ∧ ∃ m, Relation.TransGen (DependsOn deps) m m := by
  induction hlength : remaining.length using Nat.strong_induction_on
    generalizing modelList remaining with
  | _ length ih =>
    subst hlength
    rw [sortRemaining]
    by_cases hempty : remaining = []
    · subst hempty
      have hperm := h.perm
      simp only [append_nil, map_nil] at hperm
      exact Or.inl ⟨modelList, rfl, hperm, h.inOrder⟩
    rw [if_neg (by simpa using hempty)]
    have hpass : (runPass deps.models.toFinset modelList remaining).Sorts deps [] :=
      Pass.Sorts.foldl ⟨(((reverse_perm _).map _).append_left _).trans h.perm,
        fun r hr ↦ h.mem (mem_reverse.mp hr), h.inOrder, h.unchanged⟩
    have hperm := hpass.perm
    rw [append_nil] at hperm
    by_cases hchanged : (runPass deps.models.toFinset modelList remaining).changed = true
    · have hsorted := perm_insertionSort (fun a b : ModelRelations Model ↦
        getModelName a.model ≤ getModelName b.model)
          (runPass deps.models.toFinset modelList remaining).skipped
      rw [if_pos hchanged]
      refine ih _ ?_ _ _ ⟨((hsorted.map _).append_left _).trans hperm, fun r hr ↦ ?_,
        hpass.inOrder, fun _ _ hr ↦ absurd hr (by simp)⟩ rfl
      · rw [byName, length_insertionSort]
        exact (changed_runPass_iff _ _).mp hchanged
      · exact hpass.mem (mem_append_left _ (hsorted.mem_iff.mp hr))
    · dsimp only
      rw [if_neg hchanged]
      refine Or.inr ⟨⟨_, rfl⟩, hpass.cyclic (Bool.eq_false_iff.mpr hchanged) fun hnil ↦ hchanged ?_⟩
      rw [changed_runPass_iff, hnil]
      exact length_pos_iff.mpr hempty

/-- Either every model of the map is listed once and after its dependencies in the map, which then
have no cycle, or there is a cycle and the sort fails. -/
theorem sortedDependencies_topological (deps : Dependencies getModelName) :
    (∃ models, sortedDependencies getModelName deps = .ok models ∧ models.Perm deps.models ∧
        InOrder deps models ∧ ¬ ∃ m, Relation.TransGen (DependsOn deps) m m) ∨
      (∃ message, sortedDependencies getModelName deps = .error message) ∧
        ∃ m, Relation.TransGen (DependsOn deps) m m := by
  have hsorted := perm_insertionSort (fun a b : ModelRelations Model ↦
    getModelName b.model ≤ getModelName a.model) deps.values
  rcases @sortRemaining_spec _ _ _ deps [] _ ⟨hsorted.map _, fun r hr ↦ hsorted.mem_iff.mp hr,
      fun _ _ _ h ↦ absurd h (by simp), fun _ _ hr ↦ absurd hr (by simp)⟩ with
    ⟨models, hok, hperm, horder⟩ | herror
  · exact Or.inl ⟨models, hok, hperm, horder, horder.acyclic hperm⟩
  · exact Or.inr herror

end

end Sentry.Backup
