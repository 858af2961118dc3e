import Sentry.Grouping.MatchFrame
import Mathlib.Data.List.Basic

/-!
# Enhancement rules

`grouping/enhancer/matchers.py`, `actions.py` and `rules.py`. A matcher compares one field of a
frame or of the exception with a pattern, or asks the same of the frame before or after. Rules are
stored in a compact form. The caches of the matchers and the registry of their instances are left
out; an exception is `none`.
-/

namespace Sentry.Grouping

/-- The options of `glob_match`. -/
structure GlobOptions where
  doublestar : Bool := false
  ignorecase : Bool := false
  pathNormalize : Bool := false
  allowNewline : Bool := true

/-- `glob_match`, of a package, on a value and a pattern, and `str.lower` and `int` on strings. -/
structure TextFunctions where
  globMatch : GlobOptions → Str → Str → Bool
  int : Str → Option ℤ
  lower : Str → Str
  lower_ascii : ∀ s : Str, (∀ c ∈ s, c.toNat < 128) → lower s = s.map Char.toLower

/-- The exception of a stack trace; a missing key and `None` are read alike. -/
structure ExceptionData where
  type : Option Str
  value : Option Str
  mechanismType : Option Str

/-- `get_rule_bool` -/
def getRuleBool (text : TextFunctions) (value : Str) : Option Bool :=
  if value = [] then none
  else if text.lower value ∈ ["1".toList, "yes".toList, "true".toList] then some true
  else if text.lower value ∈ ["0".toList, "no".toList, "false".toList] then some false
  else none

/-- `frames[idx]`, from the end for a negative index. -/
def frameAt (frames : List MatchFrame) (idx : ℤ) : Option MatchFrame :=
  if 0 ≤ idx then frames[idx.toNat]?
  else if -idx ≤ frames.length then frames[frames.length - (-idx).toNat]?
  else none

/-- The keys of `MATCH_KEYS`. -/
inductive MatchKey
  | path
  | function
  | moduleName
  | family
  | package
  | app
  | type
  | value
  | mechanism
  | category
  deriving DecidableEq

/-- `MATCH_KEYS` -/
def MatchKey.short : MatchKey → Char
  | .path => 'p'
  | .function => 'f'
  | .moduleName => 'm'
  | .family => 'F'
  | .package => 'P'
  | .app => 'a'
  | .type => 't'
  | .value => 'v'
  | .mechanism => 'M'
  | .category => 'c'

/-- `SHORT_MATCH_KEYS` -/
def shortMatchKeys : Char → Option MatchKey
  | 'p' => some .path
  | 'f' => some .function
  | 'm' => some .moduleName
  | 'F' => some .family
  | 'P' => some .package
  | 'a' => some .app
  | 't' => some .type
  | 'v' => some .value
  | 'M' => some .mechanism
  | 'c' => some .category
  | _ => none

/-- `FAMILIES` -/
def families (name : Str) : Option Char :=
  if name = "native".toList then some 'N'
  else if name = "javascript".toList then some 'J'
  else if name = "other".toList then some 'O'
  else if name = "all".toList then some 'a'
  else none

/-- `REVERSE_FAMILIES` -/
def reverseFamilies : Char → Option Str
  | 'N' => some "native".toList
  | 'J' => some "javascript".toList
  | 'O' => some "other".toList
  | 'a' => some "all".toList
  | _ => none

/-- `FrameMatch`; the class is told by the key. -/
structure FrameMatch where
  key : MatchKey
  pattern : Str
  negated : Bool
  deriving DecidableEq

/-- `Match`, `CallerMatch` and `CalleeMatch`. -/
inductive Match
  | frame (inner : FrameMatch)
  | caller (inner : Match)
  | callee (inner : Match)
  deriving DecidableEq

/-- `path_like_match` -/
def pathLikeMatch (text : TextFunctions) (pattern value : Str) : Bool :=
  text.globMatch { doublestar := true, pathNormalize := true } value pattern ||
    (value.head? != some '/' &&
      text.globMatch { doublestar := true, pathNormalize := true } ('/' :: value) pattern)

namespace FrameMatch

variable (text : TextFunctions) (m : FrameMatch)

/-- `PathLikeMatch._positive_frame_match` -/
def pathLikeFieldMatch : Option Str → Bool
  | none => false
  | some value => pathLikeMatch text (text.lower m.pattern) value

/-- `FamilyMatch._positive_frame_match` -/
def familyMatch (family : BehaviorFamily) : Bool :=
  "all".toList ∈ m.pattern.splitOn ',' || family.name ∈ m.pattern.splitOn ','

/-- `InAppMatch._positive_frame_match` -/
def inAppMatch (inApp : Option Bool) : Bool :=
  match getRuleBool text m.pattern with
  | none => false
  | some refVal => refVal == inApp.getD false

/-- `FrameFieldMatch._positive_frame_match` -/
def frameFieldMatch : Option Str → Bool
  | none => false
  | some field => field == m.pattern || text.globMatch {} field m.pattern

/-- `ExceptionFieldMatch._positive_frame_match` -/
def exceptionFieldMatch (field : Option Str) : Bool :=
  text.globMatch {} ((orElse field none).getD "<unknown>".toList) m.pattern

/-- `matches_frame`; the classes for the exception do not read the frame. -/
def matchesFrame (frames : List MatchFrame) (idx : ℤ) (exceptionData : Option ExceptionData) :
    Option Bool :=
  let ofFrame (positive : MatchFrame → Bool) : Option Bool :=
    (frameAt frames idx).map fun frame ↦ m.negated ^^ positive frame
  match m.key with
  | .path => ofFrame fun frame ↦ m.pathLikeFieldMatch text frame.path
  | .package => ofFrame fun frame ↦ m.pathLikeFieldMatch text frame.package
  | .family => ofFrame fun frame ↦ m.familyMatch frame.family
  | .app => ofFrame fun frame ↦ m.inAppMatch text frame.inApp
  | .function => ofFrame fun frame ↦ m.frameFieldMatch text (some frame.function)
  | .moduleName => ofFrame fun frame ↦ m.frameFieldMatch text frame.moduleName
  | .category => ofFrame fun frame ↦ m.frameFieldMatch text frame.category
  | .type => some (m.negated ^^ m.exceptionFieldMatch text (exceptionData.bind (·.type)))
  | .value => some (m.negated ^^ m.exceptionFieldMatch text (exceptionData.bind (·.value)))
  | .mechanism =>
    some (m.negated ^^ m.exceptionFieldMatch text (exceptionData.bind (·.mechanismType)))

/-- The argument in `FrameMatch._to_config_structure`. -/
def configArg : Str :=
  match m.key with
  | .family => (m.pattern.splitOn ',').filterMap families
  | .app =>
    match getRuleBool text m.pattern with
    | some true => "1".toList
    | some false => "0".toList
    | none => []
  | _ => m.pattern

/-- `FrameMatch._to_config_structure` -/
def toConfigStructure : Str :=
  (if m.negated then ['!'] else []) ++ m.key.short :: m.configArg text

end FrameMatch

namespace Match

/-- `matches_frame` -/
def matchesFrame (text : TextFunctions) (frames : List MatchFrame)
    (exceptionData : Option ExceptionData) : Match → ℤ → Option Bool
  | .frame m, idx => m.matchesFrame text frames idx exceptionData
  | .caller inner, idx =>
    if 0 < idx then inner.matchesFrame text frames exceptionData (idx - 1) else some false
  | .callee inner, idx =>
    if idx < frames.length - 1 then inner.matchesFrame text frames exceptionData (idx + 1)
    else some false

/-- `isinstance(matcher, ExceptionFieldMatch)` -/
def isExceptionMatch : Match → Bool
  | .frame m => m.key == .type || m.key == .value || m.key == .mechanism
  | _ => false

/-- `_to_config_structure` -/
def toConfigStructure (text : TextFunctions) : Match → Str
  | .frame m => m.toConfigStructure text
  | .caller inner => "[".toList ++ inner.toConfigStructure text ++ "]|".toList
  | .callee inner => "|[".toList ++ inner.toConfigStructure text ++ "]".toList

end Match

/-- What stands between `opening` and `closing`, if the value starts and ends with these. -/
def enclosed (opening closing val : Str) : Option Str :=
  if opening <+: val ∧ closing <:+ val then
    some ((val.take (val.length - closing.length)).drop opening.length)
  else none

theorem length_lt_of_enclosed {opening closing val inner : Str} (hopening : opening ≠ [])
    (h : enclosed opening closing val = some inner) : inner.length < val.length := by
  unfold enclosed at h
  by_cases hval : opening <+: val ∧ closing <:+ val
  · rw [if_pos hval] at h
    obtain rfl := Option.some.inj h
    have hpos := List.length_pos_of_ne_nil hopening
    have hle := hval.1.length_le
    rw [List.length_drop, List.length_take]
    omega
  · rw [if_neg hval] at h
    exact absurd h (Option.some_ne_none inner).symm

/-- The last part of `Match._from_config_structure`. -/
def FrameMatch.fromConfigStructure (val : Str) : Option FrameMatch :=
  let negated := val.head? == some '!'
  match if negated then val.tail else val with
  | [] => none
  | letter :: rest => (shortMatchKeys letter).map fun key ↦
    ⟨key, if key = .family then [','].intercalate (rest.filterMap reverseFamilies) else rest,
      negated⟩

/-- `Match._from_config_structure` -/
def Match.fromConfigStructure (val : Str) : Option Match :=
  match _hcallee : enclosed "|[".toList "]".toList val with
  | some inner => (fromConfigStructure inner).map .callee
  | none =>
    match _hcaller : enclosed "[".toList "]|".toList val with
    | some inner => (fromConfigStructure inner).map .caller
    | none => (FrameMatch.fromConfigStructure val).map .frame
termination_by val.length
decreasing_by
  · exact length_lt_of_enclosed (by decide) _hcallee
  · exact length_lt_of_enclosed (by decide) _hcaller

/-- The keys of `ACTIONS`. -/
inductive FlagKey
  | group
  | app
  deriving DecidableEq

/-- The range of a flag action other than `None`. -/
inductive FlagRange
  | up
  | down
  deriving DecidableEq

/-- A value of a stored action. -/
inductive ConfigValue
  | int (value : ℤ)
  | text (value : Str)
  deriving DecidableEq

/-- `VarAction`, its variable with the value that the parser of the variable has made. -/
inductive VarAction
  | maxFrames (value : ℤ)
  | minFrames (value : ℤ)
  | category (value : ConfigValue)
  deriving DecidableEq

/-- `FlagAction` and `VarAction`. -/
inductive Action
  | flag (key : FlagKey) (flag : Bool) (range : Option FlagRange)
  | var (action : VarAction)
  deriving DecidableEq

/-- A stored action: an integer, or a variable with its value. -/
inductive ActionConfig
  | code (val : ℕ)
  | list (var : Str) (value : ConfigValue)

/-- `ACTIONS.index` -/
def FlagKey.index : FlagKey → ℕ
  | .group => 0
  | .app => 1

/-- `ACTIONS` -/
def actions : List FlagKey := [.group, .app]

/-- `ACTION_BITSIZE` -/
def actionBitsize : ℕ := 8

/-- `ACTION_FLAGS` -/
def actionFlags : Bool → Option FlagRange → ℕ
  | true, none => 0
  | true, some .up => 1
  | true, some .down => 2
  | false, none => 3
  | false, some .up => 4
  | false, some .down => 5

/-- `REVERSE_ACTION_FLAGS` -/
def reverseActionFlags : ℕ → Option (Bool × Option FlagRange)
  | 0 => some (true, none)
  | 1 => some (true, some .up)
  | 2 => some (true, some .down)
  | 3 => some (false, none)
  | 4 => some (false, some .up)
  | 5 => some (false, some .down)
  | _ => none

/-- `int(value)` -/
def ConfigValue.toInt (text : TextFunctions) : ConfigValue → Option ℤ
  | .int value => some value
  | .text value => text.int value

/-- `VarAction.__init__` -/
def VarAction.ofValue (text : TextFunctions) (var : Str) (value : ConfigValue) : Option VarAction :=
  if var = "max-frames".toList then (value.toInt text).map .maxFrames
  else if var = "min-frames".toList then (value.toInt text).map .minFrames
  else if var = "category".toList then some (.category value)
  else none

/-- `VarAction._to_config_structure` -/
def VarAction.toConfigStructure : VarAction → ActionConfig
  | .maxFrames value => .list "max-frames".toList (.int value)
  | .minFrames value => .list "min-frames".toList (.int value)
  | .category value => .list "category".toList value

/-- `_to_config_structure` -/
def Action.toConfigStructure : Action → ActionConfig
  | .flag key value range => .code (key.index ||| actionFlags value range <<< actionBitsize)
  | .var action => action.toConfigStructure

/-- `Action._from_config_structure` -/
def Action.fromConfigStructure (text : TextFunctions) : ActionConfig → Option Action
  | .list name value => (VarAction.ofValue text name value).map .var
  | .code val => do
    let (value, range) ← reverseActionFlags (val >>> actionBitsize)
    let key ← actions[val &&& 0xF]?
    return .flag key value range

/-- `Rule` -/
structure Rule where
  matchers : List Match
  actions : List Action

namespace Rule

/-- `_to_config_structure` -/
def toConfigStructure (text : TextFunctions) (rule : Rule) : List Str × List ActionConfig :=
  (rule.matchers.map (Match.toConfigStructure text), rule.actions.map Action.toConfigStructure)

/-- `Rule._from_config_structure` -/
def fromConfigStructure (text : TextFunctions) (config : List Str × List ActionConfig) :
    Option Rule := do
  let matchers ← config.1.mapM Match.fromConfigStructure
  let actions ← config.2.mapM (Action.fromConfigStructure text)
  return ⟨matchers, actions⟩

end Rule

/-- `all(m.matches_frame(frames, idx, exception_data) for m in matchers)` -/
def allMatch (text : TextFunctions) (frames : List MatchFrame)
    (exceptionData : Option ExceptionData) (idx : ℤ) : List Match → Option Bool
  | [] => some true
  | m :: rest => do
    if ← m.matchesFrame text frames exceptionData idx then
      allMatch text frames exceptionData idx rest
    else some false

/-- `Rule.get_matching_frame_actions`; the index that the exception matchers are given is not read.
-/
def Rule.getMatchingFrameActions (text : TextFunctions) (frames : List MatchFrame)
    (exceptionData : Option ExceptionData) (rule : Rule) : Option (List (ℕ × Action)) :=
  if rule.matchers = [] then some []
  else do
    if ← allMatch text frames exceptionData 0 (rule.matchers.filter (·.isExceptionMatch)) then
      let matching ← (List.range frames.length).mapM fun (idx : ℕ) ↦ do
        if ← allMatch text frames exceptionData idx
            (rule.matchers.filter fun m ↦ !m.isExceptionMatch) then
          return rule.actions.map fun action ↦ (idx, action)
        else return []
      return matching.flatten
    else some []

/-- `VERSIONS` -/
def versions : List ℕ := [2]

/-- `Enhancements`, without the rules of the bases. -/
structure Enhancements where
  version : ℕ
  bases : List Str
  rules : List Rule

namespace Enhancements

/-- `_to_config_structure` -/
def toConfigStructure (text : TextFunctions) (enhancements : Enhancements) :
    ℕ × List Str × List (List Str × List ActionConfig) :=
  (enhancements.version, enhancements.bases, enhancements.rules.map (Rule.toConfigStructure text))

/-- `Enhancements._from_config_structure` -/
def fromConfigStructure (text : TextFunctions)
    (config : ℕ × List Str × List (List Str × List ActionConfig)) : Option Enhancements :=
  if config.1 ∈ versions then
    (config.2.2.mapM (Rule.fromConfigStructure text)).map (⟨config.1, config.2.1, ·⟩)
  else none

end Enhancements

end Sentry.Grouping
