import Mathlib.Data.Int.Notation
import Mathlib.Data.Nat.Notation

/-!
# Frames and match frames

`stacktraces/platform.py`, and `create_match_frame` of `grouping/enhancer/matchers.py`. A frame is
the dictionary of the event; a missing key and `None` are read alike. The match frame holds what the
matchers of the enhancement rules read. `trim_function_name` is a parameter.
-/

namespace Sentry.Grouping

/-- A string as its characters. -/
abbrev Str := List Char

scoped instance instLawfulBEqStr : LawfulBEq Str := List.instLawfulBEq

/-- `value or other`, for a value that may be `None` or empty. -/
def orElse {α : Type*} (value other : Option (List α)) : Option (List α) :=
  match value with
  | some (head :: tail) => some (head :: tail)
  | _ => other

/-- The families of `get_behavior_family_for_platform`. -/
inductive BehaviorFamily
  | native
  | javascript
  | other
  deriving DecidableEq

/-- The name of a family. -/
def BehaviorFamily.name : BehaviorFamily → Str
  | .native => "native".toList
  | .javascript => "javascript".toList
  | .other => "other".toList

/-- `NATIVE_PLATFORMS` -/
def nativePlatforms : List Str :=
  ["objc".toList, "cocoa".toList, "swift".toList, "native".toList, "c".toList]

/-- `JAVASCRIPT_PLATFORMS` -/
def javascriptPlatforms : List Str := ["javascript".toList, "node".toList]

/-- `get_behavior_family_for_platform` -/
def getBehaviorFamilyForPlatform : Option Str → BehaviorFamily
  | none => .other
  | some platform =>
    if platform ∈ nativePlatforms then .native
    else if platform ∈ javascriptPlatforms then .javascript
    else .other

/-- What is read of a frame; the category and the original `in_app` stand in its `data`. -/
@[ext] structure FrameData where
  platform : Option Str
  function : Option Str
  rawFunction : Option Str
  moduleName : Option Str
  package : Option Str
  absPath : Option Str
  filename : Option Str
  inApp : Option Bool
  category : Option Str
  origInApp : Option ℤ
  deriving DecidableEq

/-- `dict` of `create_match_frame`. -/
structure MatchFrame where
  category : Option Str
  family : BehaviorFamily
  function : Str
  inApp : Option Bool
  origInApp : Option ℤ
  moduleName : Option Str
  package : Option Str
  path : Option Str
  deriving DecidableEq

/-- `get_function_name_for_frame` -/
def getFunctionNameForFrame (trimFunctionName : Str → Option Str → Str) (frame : FrameData)
    (platform : Option Str) : Option Str :=
  match orElse frame.rawFunction none with
  | some _ => frame.function
  | none =>
    (orElse frame.function none).map (trimFunctionName · (orElse frame.platform platform))

/-- `_get_function_name` -/
def getFunctionName (trimFunctionName : Str → Option Str → Str) (frame : FrameData)
    (platform : Option Str) : Str :=
  (orElse (getFunctionNameForFrame trimFunctionName frame platform) none).getD "<unknown>".toList

/-- The lower case of the bytes of a path, which is that of the ASCII letters, with `/` for `\`. -/
def normalizePathLike (value : Str) : Str :=
  value.map fun c ↦ if c = '\\' then '/' else c.toLower

/-- `create_match_frame`; the encoding as UTF-8 is left out. -/
def createMatchFrame (trimFunctionName : Str → Option Str → Str) (frame : FrameData)
    (platform : Option Str) : MatchFrame where
  category := frame.category
  family := getBehaviorFamilyForPlatform (orElse frame.platform platform)
  function := getFunctionName trimFunctionName frame platform
  inApp := frame.inApp
  origInApp := frame.origInApp
  moduleName := frame.moduleName
  package := frame.package.map normalizePathLike
  path := (orElse frame.absPath frame.filename).map normalizePathLike

end Sentry.Grouping
