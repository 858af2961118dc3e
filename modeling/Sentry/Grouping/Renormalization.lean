import Sentry.Grouping.Normalization

/-!
# Normalising an event again

`normalize_stacktraces_for_grouping` with one grouping config and then with another, compared with
the other alone. The second run prepares the frames that the first one left
(`map_prepare_finishAll`). What is left matters where the second run decides no category, and where
the match frames show it to the second enhancer.
-/

namespace Sentry.Grouping

open List

/-- The function, `in_app` and category of a frame. -/
def FrameData.outcome (frame : FrameData) : Option Str × Option Bool × Option Str :=
  (frame.function, frame.inApp, frame.category)

def Stacktrace.outcomes (stacktrace : Stacktrace) : List (Option Str × Option Bool × Option Str) :=
  stacktrace.frames.map FrameData.outcome

theorem outcome_finish (frame : FrameData) (decision : Decision) : (finish frame decision).outcome =
      (frame.function, some (finalInApp frame decision), finalCategory frame decision) := by
  rw [FrameData.outcome, function_finish, inApp_finish, category_finish]

def finishAll (frames : List FrameData) (decisions : List Decision) : List FrameData :=
  frames.mapIdx fun i frame ↦ finish frame (decisionAt decisions i)

/-- Mapping after `List.mapIdx`. -/
theorem map_mapIdx {α β γ : Type*} (g : β → γ) (f : ℕ → α → β) (l : List α) :
    (l.mapIdx f).map g = l.mapIdx fun i a ↦ g (f i a) := by
  refine (mapIdx_eq_iff.mpr fun i ↦ ?_).symm
  rw [getElem?_map, getElem?_mapIdx, Option.map_map]
  rfl

theorem finishAll_eq (frames : List FrameData) (decisions : List Decision) :
    (applyDecisions frames decisions).map normalizeInApp = finishAll frames decisions := by
  rw [applyDecisions_eq_mapIdx, map_mapIdx]
  rfl

section Runs

variable (trimFunctionName : Str → Option Str → Str) (urlQuery : Str → Option Str)

def decisions (enhancer : Enhancer) (platform : Option Str) (stacktrace : Stacktrace) :
    List Decision :=
  enhancer (stacktrace.frames.map fun frame ↦ createMatchFrame trimFunctionName frame platform)
    (makeRustExceptionData stacktrace.exceptionData)

/-- A stack trace before the enhancements. -/
def prepareAll (platform : Option Str) (stacktrace : Stacktrace) : Stacktrace :=
  { stacktrace with
    frames := stacktrace.frames.map (prepare trimFunctionName urlQuery platform) }

def leftAll (enhancer : Enhancer) (platform : Option Str) (stacktrace : Stacktrace) : Stacktrace :=
  { stacktrace with
    frames := stacktrace.frames.mapIdx fun i frame ↦ leftBy urlQuery platform frame
      (decisionAt (decisions trimFunctionName enhancer platform stacktrace) i) }

/-- The first enhancer does not disturb the second on a prepared stack trace. For each frame, with
the first, the second, and the second after the first: the `in_app` decided is the same, and so is
the category, where one that the first decides stays unless the second decides another. -/
def Undisturbed (first second : Enhancer) (platform : Option Str) (stacktrace : Stacktrace) :
    Prop :=
  let left := leftAll trimFunctionName urlQuery first platform stacktrace
  ∀ (i : ℕ) (frame : FrameData), stacktrace.frames[i]? = some frame →
    let initial := decisionAt (decisions trimFunctionName first platform stacktrace) i
    let alone := decisionAt (decisions trimFunctionName second platform stacktrace) i
    let again := decisionAt (decisions trimFunctionName second platform left) i
    (again.inApp.or frame.inApp).getD false = (alone.inApp.or frame.inApp).getD false ∧
      again.category.or (initial.category.or frame.category) = alone.category.or frame.category

/-- Normalising with the first enhancer and then with the second leaves what the second alone
leaves. -/
def PathIndependent (first second : Enhancer) (data : EventData) : Prop :=
  let normalize := normalizeStacktracesForGrouping trimFunctionName urlQuery
  (normalize (some second) (normalize (some first) data)).stacktraces.map Stacktrace.outcomes =
    (normalize (some second) data).stacktraces.map Stacktrace.outcomes

section

variable (enhancer : Enhancer) (platform : Option Str) (stacktrace : Stacktrace)

include enhancer platform stacktrace

theorem normalizeStacktrace_eq :
    normalizeStacktrace trimFunctionName urlQuery (some enhancer) platform stacktrace =
      ⟨finishAll (prepareAll trimFunctionName urlQuery platform stacktrace).frames
        (decisions trimFunctionName enhancer platform
          (prepareAll trimFunctionName urlQuery platform stacktrace)),
        stacktrace.exceptionData⟩ := by
  rw [← finishAll_eq]
  rfl

theorem prepareAll_normalizeStacktrace :
    prepareAll trimFunctionName urlQuery platform
      (normalizeStacktrace trimFunctionName urlQuery (some enhancer) platform stacktrace) =
    leftAll trimFunctionName urlQuery enhancer platform
      (prepareAll trimFunctionName urlQuery platform stacktrace) := by
  rw [normalizeStacktrace_eq]
  simp only [prepareAll, leftAll, finishAll, map_mapIdx, Stacktrace.mk.injEq, and_true]
  refine mapIdx_eq_mapIdx_iff.mpr fun i hi ↦ ?_
  rw [getElem_map]
  exact prepare_finish trimFunctionName urlQuery platform
    (prepared_prepare trimFunctionName urlQuery platform _) _

theorem outcomes_normalizeStacktrace :
    (normalizeStacktrace trimFunctionName urlQuery (some enhancer) platform stacktrace).outcomes =
      (prepareAll trimFunctionName urlQuery platform stacktrace).frames.mapIdx fun i frame ↦
        let decision := decisionAt (decisions trimFunctionName enhancer platform
          (prepareAll trimFunctionName urlQuery platform stacktrace)) i
        (frame.function, some (finalInApp frame decision), finalCategory frame decision) := by
  rw [normalizeStacktrace_eq, Stacktrace.outcomes, finishAll, map_mapIdx]
  simp only [outcome_finish]

end

theorem outcomes_twice_iff (first second : Enhancer) (platform : Option Str)
    (stacktrace : Stacktrace) :
    (normalizeStacktrace trimFunctionName urlQuery (some second) platform
      (normalizeStacktrace trimFunctionName urlQuery (some first) platform stacktrace)).outcomes =
      (normalizeStacktrace trimFunctionName urlQuery (some second) platform stacktrace).outcomes ↔
    Undisturbed trimFunctionName urlQuery first second platform
      (prepareAll trimFunctionName urlQuery platform stacktrace) := by
  rw [outcomes_normalizeStacktrace, outcomes_normalizeStacktrace, prepareAll_normalizeStacktrace]
  generalize prepareAll trimFunctionName urlQuery platform stacktrace = prepared
  have hframes : (leftAll trimFunctionName urlQuery first platform prepared).frames =
      prepared.frames.mapIdx fun i frame ↦ leftBy urlQuery platform frame
        (decisionAt (decisions trimFunctionName first platform prepared) i) := rfl
  generalize hleft : leftAll trimFunctionName urlQuery first platform prepared = left at hframes
  rw [hframes, mapIdx_mapIdx, mapIdx_eq_mapIdx_iff, Undisturbed, hleft]
  constructor
  · intro hsame i frame hframe
    obtain ⟨hi, rfl⟩ := List.getElem?_eq_some_iff.mp hframe
    have hframe := Prod.ext_iff.mp (Prod.ext_iff.mp (hsame i hi)).2
    exact ⟨Option.some.inj hframe.1, hframe.2⟩
  · intro hsame i hi
    obtain ⟨hinApp, hcategory⟩ := hsame i _ (getElem?_eq_getElem hi)
    exact Prod.ext rfl (Prod.ext (congrArg some hinApp) hcategory)

theorem stacktraces_normalizeStacktracesForGrouping (enhancer : Option Enhancer) (data : EventData)
    : (normalizeStacktracesForGrouping trimFunctionName urlQuery enhancer data).stacktraces =
      data.stacktraces.map
        (normalizeStacktrace trimFunctionName urlQuery enhancer data.platform) := by
  unfold normalizeStacktracesForGrouping
  split_ifs with h
  · rw [h, map_nil]
  · rfl

theorem platform_normalizeStacktracesForGrouping (enhancer : Option Enhancer) (data : EventData) :
    (normalizeStacktracesForGrouping trimFunctionName urlQuery enhancer data).platform =
      data.platform := by
  unfold normalizeStacktracesForGrouping
  split_ifs <;> rfl

/-- A second run leaves what it alone would leave exactly where the first enhancer does not disturb
it. -/
theorem pathIndependent_iff (first second : Enhancer) (data : EventData) :
    PathIndependent trimFunctionName urlQuery first second data ↔
      ∀ stacktrace ∈ data.stacktraces,
        Undisturbed trimFunctionName urlQuery first second data.platform
          (prepareAll trimFunctionName urlQuery data.platform stacktrace) := by
  unfold PathIndependent
  simp only [stacktraces_normalizeStacktracesForGrouping, platform_normalizeStacktracesForGrouping,
    map_map, map_inj_left, Function.comp_apply, outcomes_twice_iff]

variable {trimFunctionName urlQuery}

end Runs

/-- An enhancer that gives each frame the category `ui`. -/
def categorize : Enhancer := fun frames _ ↦ frames.map fun _ ↦ ⟨some "ui".toList, none⟩

/-- An enhancer without rules. -/
def withoutRules : Enhancer := fun frames _ ↦ frames.map fun _ ↦ ⟨none, none⟩

/-- An event with one frame, of the function `main`. -/
def oneFrame : EventData where
  platform := some "python".toList
  stacktraces :=
    [⟨[⟨none, some "main".toList, none, none, none, none, none, none, none, none⟩], none⟩]
  inAppFrameMix := none

/-- The category of the first run is still there after the second. -/
theorem categorize_not_pathIndependent :
    ¬ PathIndependent (fun functionName _ ↦ functionName) (fun _ ↦ none) categorize withoutRules
      oneFrame := by
  unfold PathIndependent
  decide

end Sentry.Grouping
