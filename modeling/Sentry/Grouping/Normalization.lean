import Sentry.Grouping.EnhancementRules
import Mathlib.Data.List.Forall2

/-!
# Normalising stack traces for grouping

`normalize_stacktraces_for_grouping` of `stacktraces/processing.py`, with `_update_frame` and
`set_in_app`. The enhancer is a function of the match frames and the exception; `urlparse` and
`trim_function_name` are parameters too. A run leaves three things in a frame that the next run does
not restore: the category, the original `in_app`, and the filename (`leftBy`). The next run restores
everything else (`prepare_finish`).
-/

namespace Sentry.Grouping

open FrameData Option List

/-- A stack trace: its frames, and the exception that contains it, if one does. -/
structure Stacktrace where
  frames : List FrameData
  exceptionData : Option ExceptionData

/-- The classification of `_normalize_in_app`. -/
inductive FrameMix
  | inAppOnly
  | systemOnly
  | mixed
  deriving DecidableEq

/-- The event: its platform, the stack traces with frames, and `in_app_frame_mix` in its metadata.
-/
structure EventData where
  platform : Option Str
  stacktraces : List Stacktrace
  inAppFrameMix : Option FrameMix

/-- What the enhancer decides for a frame: a category and `in_app`, or neither. -/
structure Decision where
  category : Option Str
  inApp : Option Bool

/-- `RustEnhancements.apply_modifications_to_frames` -/
abbrev Enhancer := List MatchFrame → ExceptionData → List Decision

/-- `make_rust_exception_data` -/
def makeRustExceptionData (exceptionData : Option ExceptionData) : ExceptionData :=
  exceptionData.getD ⟨none, none, none⟩

/-- `None if orig_in_app == -1 else bool(orig_in_app)` -/
def restoredInApp (origInApp : ℤ) : Option Bool :=
  if origInApp = -1 then none else some (decide (origInApp ≠ 0))

/-- `int(orig_in_app) if orig_in_app is not None else -1` -/
def storedInApp : Option Bool → ℤ
  | none => -1
  | some true => 1
  | some false => 0

namespace FrameData

/-- `set_in_app` -/
def setInApp (frame : FrameData) (value : Bool) : FrameData :=
  if frame.inApp = some value then frame
  else
    { frame with
      origInApp := some (frame.origInApp.getD (storedInApp frame.inApp))
      inApp := some value }

/-- The first part of `_update_frame`. -/
def restoreInApp (frame : FrameData) : FrameData :=
  match frame.origInApp with
  | none => frame
  | some origInApp => { frame with inApp := restoredInApp origInApp }

/-- The second part of `_update_frame`. -/
def trimFunction (trimFunctionName : Str → Option Str → Str) (platform : Option Str)
    (frame : FrameData) : FrameData :=
  match frame.rawFunction, orElse frame.function none with
  | none, some rawFunc =>
    let functionName := trimFunctionName rawFunc (orElse frame.platform platform)
    if functionName ≠ rawFunc then
      { frame with rawFunction := some rawFunc, function := some functionName }
    else frame
  | _, _ => frame

end FrameData

/-- `value.replace(old, "")`, of a text that is not empty. -/
def removeAll (old : Str) : Str → Str
  | [] => []
  | c :: rest =>
    if old <+: c :: rest ∧ old ≠ [] then removeAll old (rest.drop (old.length - 1))
    else c :: removeAll old rest
termination_by value => value.length
decreasing_by all_goals simp only [length_drop, length_cons]; omega

section Normalize

variable (trimFunctionName : Str → Option Str → Str) (urlQuery : Str → Option Str)

/-- Pulls the query string off a filename; `none` from `urlQuery` is an exception, and an empty
query is as well none. -/
def stripQuerystring (filename : Str) : Str :=
  match orElse (urlQuery filename) none with
  | none => filename
  | some query => removeAll ('?' :: query) filename

/-- The loop over the frames in `normalize_stacktraces_for_grouping`: a frame before the
enhancements. -/
def prepare (platform : Option Str) (frame : FrameData) : FrameData :=
  let frame := frame.restoreInApp.trimFunction trimFunctionName platform
  if platform = some "javascript".toList then
    { frame with filename := frame.filename.map (stripQuerystring urlQuery) }
  else frame

/-- The body of the loop in `Enhancements.apply_modifications_to_frame`. -/
def applyDecision (frame : FrameData) (decision : Decision) : FrameData :=
  let frame :=
    match decision.inApp with
    | none => frame
    | some inApp => frame.setInApp inApp
  match decision.category with
  | none => frame
  | some category => { frame with category := some category }

/-- `zip(frames, rust_enhanced_frames)`: frames without a decision stay as they are. -/
def applyDecisions : List FrameData → List Decision → List FrameData
  | frame :: frames, decision :: decisions =>
    applyDecision frame decision :: applyDecisions frames decisions
  | frames, _ => frames

/-- `Enhancements.apply_modifications_to_frame` -/
def applyModificationsToFrame (enhancer : Enhancer) (platform : Option Str)
    (stacktrace : Stacktrace) : Stacktrace :=
  let matchFrames := stacktrace.frames.map fun frame ↦
    createMatchFrame trimFunctionName frame platform
  let decisions := enhancer matchFrames (makeRustExceptionData stacktrace.exceptionData)
  ⟨applyDecisions stacktrace.frames decisions, stacktrace.exceptionData⟩

/-- `_normalize_in_app`, on a frame. -/
def normalizeInApp (frame : FrameData) : FrameData :=
  if frame.inApp = none then frame.setInApp false else frame

/-- What `_normalize_in_app` returns, for the frames it leaves. -/
def frameMix (frames : List FrameData) : FrameMix :=
  let inApp := frames.any fun frame ↦ frame.inApp = some true
  let system := frames.any fun frame ↦ frame.inApp ≠ some true
  if inApp && system then .mixed else if inApp then .inAppOnly else .systemOnly

/-- `in_app_frame_mix`, from the mixes of the stack traces. -/
def eventMix (mixes : List FrameMix) : FrameMix :=
  if mixes.all (· = .inAppOnly) then .inAppOnly
  else if mixes.all (· = .systemOnly) then .systemOnly
  else .mixed

/-- A stack trace in `normalize_stacktraces_for_grouping`. -/
def normalizeStacktrace (enhancer : Option Enhancer) (platform : Option Str)
    (stacktrace : Stacktrace) : Stacktrace :=
  let frames := stacktrace.frames.map (prepare trimFunctionName urlQuery platform)
  let prepared : Stacktrace := ⟨frames, stacktrace.exceptionData⟩
  let modified :=
    match enhancer with
    | none => prepared
    | some enhancer => applyModificationsToFrame trimFunctionName enhancer platform prepared
  ⟨modified.frames.map normalizeInApp, modified.exceptionData⟩

/-- `normalize_stacktraces_for_grouping` -/
def normalizeStacktracesForGrouping (enhancer : Option Enhancer) (data : EventData) : EventData :=
  if data.stacktraces = [] then data
  else
    let stacktraces := data.stacktraces.map
      (normalizeStacktrace trimFunctionName urlQuery enhancer data.platform)
    { data with
      stacktraces := stacktraces
      inAppFrameMix :=
        some (eventMix (stacktraces.map fun stacktrace ↦ frameMix stacktrace.frames)) }

end Normalize

def decisionAt (decisions : List Decision) (i : ℕ) : Decision := decisions.getD i ⟨none, none⟩

/-- The frame after the enhancements and `_normalize_in_app`. -/
def finish (frame : FrameData) (decision : Decision) : FrameData :=
  normalizeInApp (applyDecision frame decision)

def finalCategory (frame : FrameData) (decision : Decision) : Option Str :=
  decision.category.or frame.category

/-- The `in_app` that a decision leaves. -/
def finalInApp (frame : FrameData) (decision : Decision) : Bool :=
  (decision.inApp.or frame.inApp).getD false

namespace FrameData

variable (frame : FrameData)

theorem setInApp_of_eq {value : Bool} (h : frame.inApp = some value) :
    frame.setInApp value = frame :=
  if_pos h

@[simp] theorem inApp_setInApp (value : Bool) : (frame.setInApp value).inApp = some value := by
  unfold setInApp
  split_ifs with h
  · exact h
  · rfl

/-- `set_in_app` does not read the category. -/
theorem setInApp_category (value : Bool) (category : Option Str) :
    { frame with category := category }.setInApp value =
      { frame.setInApp value with category := category } := by
  unfold setInApp
  by_cases h : frame.inApp = some value
  · rw [if_pos h, if_pos h]
  · rw [if_neg h, if_neg h]

/-- Only `in_app` and its original are set. -/
theorem setInApp_eq (value : Bool) : frame.setInApp value =
    { frame with inApp := some value, origInApp := (frame.setInApp value).origInApp } := by
  unfold setInApp
  split_ifs with h
  · rw [← h]
  · rfl

end FrameData

theorem normalizeInApp_eq (frame : FrameData) :
    normalizeInApp frame = frame.setInApp (frame.inApp.getD false) := by
  unfold normalizeInApp
  cases h : frame.inApp with
  | none => rw [if_pos rfl, getD_none]
  | some value => rw [if_neg (some_ne_none value), getD_some, frame.setInApp_of_eq h]

section

variable (frame : FrameData) (decision : Decision)

include frame decision

/-- A frame gets its category, and its `in_app` through `set_in_app` once. -/
theorem finish_eq :
    finish frame decision =
      { frame with category := finalCategory frame decision }.setInApp
      (finalInApp frame decision) := by
  have hcategory (other : FrameData) : (match decision.category with
      | none => other
      | some category => { other with category := some category }) =
        { other with category := decision.category.or other.category } := by
    cases decision.category <;> rfl
  rw [finish, applyDecision, hcategory, normalizeInApp_eq]
  cases hinApp : decision.inApp with
  | none => simp only [finalCategory, finalInApp, hinApp, none_or]
  | some value =>
    have hsame : (frame.setInApp value).category = frame.category := by
      rw [frame.setInApp_eq]
    simp only [finalCategory, finalInApp, hinApp, some_or, getD_some, hsame,
      inApp_setInApp, setInApp_category]
    exact setInApp_of_eq _ rfl

theorem category_finish : (finish frame decision).category = finalCategory frame decision := by
  rw [finish_eq, setInApp_eq]

theorem inApp_finish : (finish frame decision).inApp = some (finalInApp frame decision) := by
  rw [finish_eq, inApp_setInApp]

theorem function_finish : (finish frame decision).function = frame.function := by
  rw [finish_eq, setInApp_eq]

end

theorem applyDecisions_eq_mapIdx (frames : List FrameData) (decisions : List Decision) :
    applyDecisions frames decisions =
      frames.mapIdx fun i frame ↦ applyDecision frame (decisionAt decisions i) := by
  induction frames generalizing decisions with
  | nil => cases decisions <;> rfl
  | cons frame frames ih =>
    rw [mapIdx_cons]
    cases decisions with
    | nil =>
      have hnone : ∀ i, decisionAt [] i = ⟨none, none⟩ := fun i ↦ getD_nil
      simp only [applyDecisions, hnone]
      refine congrArg (frame :: ·) ?_
      exact (mapIdx_eq_iff.mpr fun i ↦ by simp [applyDecision]).symm
    | cons decision decisions =>
      rw [applyDecisions, ih]
      rfl

section Prepare

variable (trimFunctionName : Str → Option Str → Str) (urlQuery : Str → Option Str)
  (platform : Option Str)

def strippedFilename (filename : Option Str) : Option Str :=
  if platform = some "javascript".toList then filename.map (stripQuerystring urlQuery) else filename

/-- A frame with the category and the original `in_app` that a run has left in it, as the next run
prepares it. -/
def leftBy (frame : FrameData) (decision : Decision) : FrameData :=
  { frame with
    category := finalCategory frame decision
    origInApp := (frame.setInApp (finalInApp frame decision)).origInApp
    filename := strippedFilename urlQuery platform frame.filename }

/-- The original `in_app` of a frame, if it has one, is its `in_app`, and its function is trimmed.
-/
structure Prepared (frame : FrameData) : Prop where
  inApp : ∀ origInApp ∈ frame.origInApp, frame.inApp = restoredInApp origInApp
  function : frame.trimFunction trimFunctionName platform = frame

theorem restoredInApp_storedInApp (inApp : Option Bool) :
    restoredInApp (storedInApp inApp) = inApp := by
  rcases inApp with _ | _ | _ <;> rfl

theorem trimFunction_with (frame : FrameData) (filename category : Option Str)
    (inApp : Option Bool) (origInApp : Option ℤ) :
    { frame with
      filename := filename
      inApp := inApp
      category := category
      origInApp := origInApp }.trimFunction trimFunctionName platform =
    { frame.trimFunction trimFunctionName platform with
      filename := filename
      inApp := inApp
      category := category
      origInApp := origInApp } := by
  simp only [trimFunction]
  split
  · split_ifs <;> rfl
  · rfl

theorem trimFunction_trimFunction (frame : FrameData) :
    (frame.trimFunction trimFunctionName platform).trimFunction trimFunctionName platform =
      frame.trimFunction trimFunctionName platform := by
  have hsame : frame.trimFunction trimFunctionName platform = frame ∨
      (frame.trimFunction trimFunctionName platform).rawFunction ≠ none := by
    simp only [trimFunction]
    split
    · split_ifs
      · exact Or.inr (some_ne_none _)
      · exact Or.inl rfl
    · exact Or.inl rfl
  rcases hsame with hsame | hraw
  · rw [hsame, hsame]
  · obtain ⟨raw, hraw⟩ := Option.ne_none_iff_exists'.mp hraw
    generalize frame.trimFunction trimFunctionName platform = trimmed at hraw
    unfold trimFunction
    rw [hraw]

theorem restoreInApp_eq (frame : FrameData) : frame.restoreInApp =
    { frame with inApp := frame.origInApp.elim frame.inApp restoredInApp } := by
  cases horig : frame.origInApp with
  | none =>
    simp only [restoreInApp, horig, elim_none]
    rw [← horig]
  | some origInApp => simp only [restoreInApp, horig, elim_some]

/-- After `set_in_app`, what is stored restores the `in_app` of before. -/
theorem elim_setInApp {frame : FrameData}
    (hframe : ∀ origInApp ∈ frame.origInApp, frame.inApp = restoredInApp origInApp) (value : Bool) :
    (frame.setInApp value).origInApp.elim (some value) restoredInApp = frame.inApp := by
  unfold setInApp
  split_ifs with hvalue
  · cases horig : frame.origInApp with
    | none => exact hvalue.symm
    | some origInApp => exact (hframe origInApp horig).symm
  · cases horig : frame.origInApp with
    | none => exact restoredInApp_storedInApp frame.inApp
    | some origInApp => exact (hframe origInApp horig).symm

theorem prepare_eq (frame : FrameData) :
    prepare trimFunctionName urlQuery platform frame =
      { frame.restoreInApp.trimFunction trimFunctionName platform with
        filename := strippedFilename urlQuery platform
          (frame.restoreInApp.trimFunction trimFunctionName platform).filename } := by
  unfold prepare strippedFilename
  split_ifs <;> rfl

theorem prepared_prepare (frame : FrameData) :
    Prepared trimFunctionName platform (prepare trimFunctionName urlQuery platform frame) := by
  rw [prepare_eq]
  have hwith := trimFunction_with trimFunctionName platform frame.restoreInApp
    frame.restoreInApp.filename frame.restoreInApp.category frame.restoreInApp.inApp
    frame.restoreInApp.origInApp
  have hinApp := congrArg inApp hwith
  have horig := congrArg origInApp hwith
  refine ⟨?_, ?_⟩
  · show ∀ origInApp ∈ (frame.restoreInApp.trimFunction trimFunctionName platform).origInApp,
      (frame.restoreInApp.trimFunction trimFunctionName platform).inApp = restoredInApp origInApp
    rw [hinApp, horig, restoreInApp_eq]
    intro origInApp hmem
    rw [mem_def.mp hmem, elim_some]
  · have htrim := trimFunction_trimFunction trimFunctionName platform frame.restoreInApp
    generalize frame.restoreInApp.trimFunction trimFunctionName platform = trimmed at htrim
    rw [trimFunction_with trimFunctionName platform trimmed _ trimmed.category trimmed.inApp
      trimmed.origInApp, htrim]

theorem prepare_finish {frame : FrameData} (hframe : Prepared trimFunctionName platform frame)
    (decision : Decision) :
    prepare trimFunctionName urlQuery platform (finish frame decision) =
      leftBy urlQuery platform frame decision := by
  have hrestore : (finish frame decision).restoreInApp =
      { frame with
        category := finalCategory frame decision
        origInApp := (frame.setInApp (finalInApp frame decision)).origInApp } := by
    rw [finish_eq, setInApp_category, setInApp_eq, restoreInApp_eq]
    rw [elim_setInApp hframe.inApp]
  rw [prepare_eq, hrestore, trimFunction_with trimFunctionName platform frame frame.filename _
    frame.inApp, hframe.function]
  rfl

end Prepare

end Sentry.Grouping
