import Sentry.Grouping.EnhancementRules
import Sentry.Library.Grouping

/-!
# Fingerprinting rules

`grouping/fingerprinting`. A rule gives its fingerprint to an event when for every group of its
matchers some value of the event satisfies all of them. A matcher of paths is meant to test the path
and the file name of a frame and tests the path twice (`fingerprint_iff`). The normalization of the
name of an SDK and `trim_function_name` are parameters.
-/

namespace Sentry.Grouping.Fingerprinting

open Library List

/-- What is used of other modules and packages. -/
structure EventFunctions extends TextFunctions where
  trimFunctionName : Str → Option Str → Str
  normalizeSdkTag : Str → Str

/-- An exception of an event, with the frames of its stack trace. -/
structure EventException where
  type : Option Str
  value : Option Str
  frames : List FrameData

/-- A thread of an event. -/
structure EventThread where
  crashed : Bool
  current : Bool
  frames : List FrameData

/-- What is read of an event; a missing key and `None` are read alike. -/
structure EventData where
  platform : Option Str
  message : Option Str
  logger : Option Str
  level : Option Str
  exceptions : List EventException
  stacktrace : List FrameData
  threads : List EventThread
  tags : List (Str × Option Str)
  sdkName : Option Str
  release : Option Str

/-- The dictionaries that the matchers are tested with. -/
structure Values where
  message : Option Str := none
  type : Option Str := none
  value : Option Str := none
  logger : Option Str := none
  level : Option Str := none
  function : Option Str := none
  absPath : Option Str := none
  filename : Option Str := none
  moduleName : Option Str := none
  package : Option Str := none
  app : Option Bool := none
  tags : List (Str × Option Str) := []
  sdk : Option Str := none
  family : Option Str := none
  release : Option Str := none

/-- `get_crashing_thread` -/
def getCrashingThread (threads : List EventThread) : Option EventThread :=
  match threads, threads.filter (·.crashed), threads.filter (·.current) with
  | [thread], _, _ => some thread
  | _, [thread], _ => some thread
  | _, _, [thread] => some thread
  | _, _, _ => none

/-- `find_stack_frames` -/
def findStackFrames (event : EventData) : List FrameData :=
  match event.exceptions.flatMap (·.frames) with
  | frame :: frames => frame :: frames
  | [] =>
    match event.stacktrace with
    | frame :: frames => frame :: frames
    | [] => ((getCrashingThread event.threads).map (·.frames)).getD []

section EventAccess

variable (functions : EventFunctions) (event : EventData)

/-- `_push_frame` -/
def frameValues (frame : FrameData) : Values :=
  { function := some (getFunctionName functions.trimFunctionName frame
      (orElse frame.platform event.platform))
    absPath := orElse frame.absPath frame.filename
    filename := frame.filename
    moduleName := frame.moduleName
    package := frame.package
    app := frame.inApp }

/-- `get_frames` -/
def getFrames : List Values := (findStackFrames event).map (frameValues functions event)

/-- `get_messages` -/
def getMessages : List Values :=
  match orElse event.message none with
  | none => []
  | some message => [{ message := some message }]

/-- `get_log_info` -/
def getLogInfo : List Values :=
  match orElse event.logger none, orElse event.level none with
  | none, none => []
  | logger, level => [{ logger := logger, level := level }]

/-- `get_exceptions` -/
def getExceptions : List Values :=
  event.exceptions.map fun exc ↦ { type := exc.type, value := exc.value }

/-- `get_toplevel` -/
def getToplevel : List Values := getMessages event ++ getExceptions event

/-- `get_tags` -/
def getTags : List Values := [{ tags := event.tags }]

/-- `get_sdk` -/
def getSdk : List Values :=
  [{ sdk := some (functions.normalizeSdkTag ((orElse event.sdkName none).getD "other".toList)) }]

/-- `get_family` -/
def getFamily : List Values :=
  [{ family := some (getBehaviorFamilyForPlatform event.platform).name }]

/-- `get_release` -/
def getRelease : List Values := [{ release := event.release }]

end EventAccess

/-- The keys of `MATCHERS`, and those of tags. -/
inductive MatchKey
  | type
  | value
  | moduleName
  | path
  | package
  | function
  | message
  | logger
  | level
  | family
  | app
  | sdk
  | release
  | tag (name : Str)
  deriving DecidableEq

/-- The groups of matchers. -/
inductive MatchGroup
  | toplevel
  | logInfo
  | exceptions
  | tags
  | sdk
  | family
  | release
  | frames
  deriving DecidableEq

/-- `Match` -/
structure Match where
  key : MatchKey
  pattern : Str
  negated : Bool

/-- `match_group` -/
def Match.matchGroup (m : Match) : MatchGroup :=
  match m.key with
  | .message => .toplevel
  | .logger | .level => .logInfo
  | .type | .value => .exceptions
  | .tag _ => .tags
  | .sdk => .sdk
  | .family => .family
  | .release => .release
  | .moduleName | .path | .package | .function | .app => .frames

/-- `get_values` -/
def getValues (functions : EventFunctions) (event : EventData) : MatchGroup → List Values
  | .toplevel => getToplevel event
  | .logInfo => getLogInfo event
  | .exceptions => getExceptions event
  | .tags => getTags event
  | .sdk => getSdk functions event
  | .family => getFamily event
  | .release => getRelease event
  | .frames => getFrames functions event

section Matching

variable (functions : EventFunctions)

/-- `_positive_path_match` -/
def positivePathMatch (pattern : Str) : Option Str → Bool
  | none => false
  | some value =>
    let options : GlobOptions := { ignorecase := true, doublestar := true, pathNormalize := true }
    functions.globMatch options value pattern ||
      value.head? ≠ some '/' && functions.globMatch options ('/' :: value) pattern

def positiveGlobMatch (pattern : Str) (ignorecase : Bool) : Option Str → Bool
  | none => false
  | some value => functions.globMatch { ignorecase := ignorecase } value pattern

/-- A value is one of the comma-separated ones, or `all` is one of them. -/
def positiveFlagMatch (pattern : Str) : Option Str → Bool
  | none => false
  | some value => "all".toList ∈ pattern.splitOn ',' || value ∈ pattern.splitOn ','

/-- `_positive_match` -/
def positiveMatch (m : Match) (values : Values) : Bool :=
  match m.key with
  | .path =>
    if positivePathMatch functions m.pattern values.absPath then true
    -- the path is tested again, and not the file name
    else if values.filename ≠ values.absPath then
      positivePathMatch functions m.pattern values.absPath
    else false
  | .message =>
    positiveGlobMatch functions m.pattern true values.message ||
      positiveGlobMatch functions m.pattern true values.value
  | .package => positivePathMatch functions m.pattern values.package
  | .family => positiveFlagMatch m.pattern values.family
  | .sdk => positiveFlagMatch m.pattern values.sdk
  | .release => positivePathMatch functions m.pattern values.release
  | .app =>
    match values.app, getRuleBool functions.toTextFunctions m.pattern with
    | some value, some refVal => refVal = value
    | _, _ => false
  | .type => positiveGlobMatch functions m.pattern false values.type
  | .value => positiveGlobMatch functions m.pattern true values.value
  | .moduleName => positiveGlobMatch functions m.pattern false values.moduleName
  | .function => positiveGlobMatch functions m.pattern false values.function
  | .logger => positiveGlobMatch functions m.pattern false values.logger
  | .level => positiveGlobMatch functions m.pattern true values.level
  -- the last tag of a name is the one that the dictionary holds
  | .tag name => positiveGlobMatch functions m.pattern false
      ((values.tags.reverse.lookup name).getD none)

/-- `matches` -/
def Match.matches (m : Match) (values : Values) : Bool :=
  if m.negated then !positiveMatch functions m values else positiveMatch functions m values

/-- `Rule` -/
structure Rule where
  matchers : List Match
  fingerprint : List Str
  attributes : List (Str × Str)

/-- `get_fingerprint_values_for_event_access` -/
def Rule.getFingerprintValuesForEventAccess (rule : Rule) (event : EventData) :
    Option (List Str × List (Str × Str)) :=
  let byMatchGroup := groupItems (rule.matchers.map fun m ↦ (m.matchGroup, m))
  if byMatchGroup.all fun group ↦ (getValues functions event group.1).any fun values ↦
      group.2.all fun m ↦ m.matches functions values then
    some (rule.fingerprint, rule.attributes)
  else none

end Matching

section BothPaths

variable (functions : EventFunctions)

def positiveMatchBoth (m : Match) (values : Values) : Bool :=
  if m.key = .path then
    positivePathMatch functions m.pattern values.absPath ||
      positivePathMatch functions m.pattern values.filename
  else positiveMatch functions m values

def Match.matchesBoth (m : Match) (values : Values) : Bool :=
  if m.negated then !positiveMatchBoth functions m values
  else positiveMatchBoth functions m values

def Rule.ChosenBoth (rule : Rule) (event : EventData) : Prop :=
  ∀ m ∈ rule.matchers, ∃ values ∈ getValues functions event m.matchGroup,
    ∀ other ∈ rule.matchers, other.matchGroup = m.matchGroup → other.matchesBoth functions values

def Rule.OthersMet (rule : Rule) (event : EventData) : Prop :=
  ∀ m ∈ rule.matchers, m.matchGroup ≠ .frames →
    ∃ values ∈ getValues functions event m.matchGroup,
      ∀ other ∈ rule.matchers, other.matchGroup = m.matchGroup → other.matches functions values

def Match.MissesFilename (m : Match) (values : Values) : Prop :=
  m.key = .path ∧ positivePathMatch functions m.pattern values.absPath = false ∧
    positivePathMatch functions m.pattern values.filename = true

def Rule.MetBut (rule : Rule) (negated : Bool) (values : Values) : Prop :=
  ∀ m ∈ rule.matchers, m.matchGroup = .frames →
    (m.MissesFilename functions values → m.negated = negated) ∧
      (¬ m.MissesFilename functions values → m.matches functions values = true)

variable {functions} {m : Match} {values : Values} {rule : Rule} {event : EventData}

theorem positiveMatch_path (hkey : m.key = .path) :
    positiveMatch functions m values = positivePathMatch functions m.pattern values.absPath := by
  rw [positiveMatch, hkey]
  cases positivePathMatch functions m.pattern values.absPath with
  | true => rfl
  | false => simp

theorem positiveMatchBoth_of_misses (h : m.MissesFilename functions values) :
    positiveMatch functions m values = false ∧ positiveMatchBoth functions m values = true := by
  obtain ⟨hkey, hpath, hfilename⟩ := h
  rw [positiveMatch_path hkey, positiveMatchBoth, if_pos hkey, hpath, hfilename]
  exact ⟨rfl, rfl⟩

theorem positiveMatchBoth_of_not_misses (h : ¬ m.MissesFilename functions values) :
    positiveMatchBoth functions m values = positiveMatch functions m values := by
  rw [positiveMatchBoth]
  split_ifs with hkey
  · rw [positiveMatch_path hkey]
    cases hpath : positivePathMatch functions m.pattern values.absPath with
    | true => rfl
    | false =>
      cases hfilename : positivePathMatch functions m.pattern values.filename with
      | true => exact absurd ⟨hkey, hpath, hfilename⟩ h
      | false => rfl
  · rfl

theorem matches_iff (m : Match) (values : Values) :
    m.matches functions values = true ↔
      (m.MissesFilename functions values → m.negated = true) ∧
        (¬ m.MissesFilename functions values → m.matches functions values = true) := by
  by_cases hmisses : m.MissesFilename functions values
  · rw [Match.matches, (positiveMatchBoth_of_misses hmisses).1]
    cases m.negated <;> simp [hmisses]
  · simp [hmisses]

theorem matchesBoth_iff (m : Match) (values : Values) :
    m.matchesBoth functions values = true ↔
      (m.MissesFilename functions values → m.negated = false) ∧
        (¬ m.MissesFilename functions values → m.matches functions values = true) := by
  by_cases hmisses : m.MissesFilename functions values
  · rw [Match.matchesBoth, (positiveMatchBoth_of_misses hmisses).2]
    cases m.negated <;> simp [hmisses]
  · rw [Match.matchesBoth, positiveMatchBoth_of_not_misses hmisses, Match.matches]
    simp [hmisses]

theorem matchesBoth_of_ne_frames (h : m.matchGroup ≠ .frames) (values : Values) :
    m.matchesBoth functions values = m.matches functions values := by
  have hkey : m.key ≠ .path := by
    intro hkey
    rw [Match.matchGroup, hkey] at h
    exact h rfl
  rw [Match.matchesBoth, positiveMatchBoth, if_neg hkey, Match.matches]

/-- The groups of the matchers. -/
def Rule.groups (rule : Rule) : List (MatchGroup × List Match) :=
  groupItems (rule.matchers.map fun m ↦ (m.matchGroup, m))

theorem Rule.mem_keyed_iff {rule : Rule} {group : MatchGroup} {m : Match} :
    (group, m) ∈ rule.matchers.map (fun m ↦ (m.matchGroup, m)) ↔
      m ∈ rule.matchers ∧ m.matchGroup = group := by
  simp only [mem_map, Prod.mk.injEq]
  constructor
  · rintro ⟨other, hother, hgroup, rfl⟩
    exact ⟨hother, hgroup⟩
  · rintro ⟨hm, hgroup⟩
    exact ⟨m, hm, hgroup, rfl⟩

theorem Rule.mem_group_iff {rule : Rule} {group : MatchGroup × List Match}
    (hgroup : group ∈ rule.groups) {m : Match} :
    m ∈ group.2 ↔ m ∈ rule.matchers ∧ m.matchGroup = group.1 := by
  constructor
  · exact fun hm ↦ mem_keyed_iff.mp (mem_of_mem_group hgroup hm)
  · intro hm
    obtain ⟨members, hmembers, hmem⟩ := (mem_groupItems_iff _ group.1 m).mpr (mem_keyed_iff.mpr hm)
    have hsame := inj_on_of_nodup_map (nodup_keys_groupItems _) hgroup hmembers rfl
    rwa [(Prod.ext_iff.mp hsame).2]

theorem Rule.exists_group {rule : Rule} {m : Match} (hm : m ∈ rule.matchers) :
    ∃ members, (m.matchGroup, members) ∈ rule.groups := by
  obtain ⟨members, hmembers, -⟩ := (mem_groupItems_iff _ m.matchGroup m).mpr
    (mem_keyed_iff.mpr ⟨hm, rfl⟩)
  exact ⟨members, hmembers⟩

theorem isSome_getFingerprintValues_iff_groups (functions : EventFunctions) (rule : Rule)
    (event : EventData) : (rule.getFingerprintValuesForEventAccess functions event).isSome ↔
      ∀ group ∈ rule.groups, ∃ values ∈ getValues functions event group.1,
        ∀ m ∈ group.2, m.matches functions values = true := by
  rw [Rule.getFingerprintValuesForEventAccess, ← Rule.groups]
  simp only [all_eq_true, any_eq_true]
  split_ifs with h
  · exact iff_of_true rfl h
  · exact iff_of_false Bool.false_ne_true h

theorem isSome_getFingerprintValues_iff (functions : EventFunctions) (rule : Rule)
    (event : EventData) : (rule.getFingerprintValuesForEventAccess functions event).isSome ↔
      ∀ m ∈ rule.matchers, ∃ values ∈ getValues functions event m.matchGroup,
        ∀ other ∈ rule.matchers, other.matchGroup = m.matchGroup →
          other.matches functions values = true := by
  rw [isSome_getFingerprintValues_iff_groups]
  constructor
  · intro h m hm
    obtain ⟨members, hgroup⟩ := Rule.exists_group hm
    obtain ⟨values, hvalues, hsatisfied⟩ := h _ hgroup
    exact ⟨values, hvalues, fun other hother hsame ↦
      hsatisfied other ((Rule.mem_group_iff hgroup).mpr ⟨hother, hsame⟩)⟩
  · intro h group hgroup
    obtain ⟨m, hm⟩ := exists_mem_of_ne_nil _ (groupItems_ne_nil _ group hgroup)
    obtain ⟨hmatcher, hsame⟩ := (Rule.mem_group_iff hgroup).mp hm
    obtain ⟨values, hvalues, hsatisfied⟩ := h m hmatcher
    rw [hsame] at hvalues hsatisfied
    refine ⟨values, hvalues, fun other hother ↦ ?_⟩
    obtain ⟨hother, hotherSame⟩ := (Rule.mem_group_iff hgroup).mp hother
    exact hsatisfied other hother hotherSame

theorem forall_matchers_iff (functions : EventFunctions) (rule : Rule) (event : EventData)
    (satisfied : Match → Values → Prop) :
    (∀ m ∈ rule.matchers, ∃ values ∈ getValues functions event m.matchGroup,
      ∀ other ∈ rule.matchers, other.matchGroup = m.matchGroup → satisfied other values) ↔
      (∀ m ∈ rule.matchers, m.matchGroup ≠ .frames →
        ∃ values ∈ getValues functions event m.matchGroup,
          ∀ other ∈ rule.matchers, other.matchGroup = m.matchGroup → satisfied other values) ∧
      ((∃ m ∈ rule.matchers, m.matchGroup = .frames) → ∃ values ∈ getFrames functions event,
        ∀ other ∈ rule.matchers, other.matchGroup = .frames → satisfied other values) := by
  constructor
  · intro h
    refine ⟨fun m hm _ ↦ h m hm, ?_⟩
    rintro ⟨m, hm, hframes⟩
    have hmet := h m hm
    rwa [hframes] at hmet
  · rintro ⟨hothers, hframes⟩ m hm
    by_cases hgroup : m.matchGroup = .frames
    · rw [hgroup]
      exact hframes ⟨m, hm, hgroup⟩
    · exact hothers m hm hgroup

/-- A matcher of paths matches exactly when the path or the file name does, if and only if it does
not miss the file name; and a rule gives its fingerprint exactly when for every group of its
matchers some value satisfies all of them with both paths, if and only if, where the other groups
are satisfied and there are matchers of frames, some frame is satisfied up to missed file names of
negated matchers exactly when some frame is satisfied up to those of matchers that are not
negated. -/
theorem fingerprint_iff (functions : EventFunctions) :
    (∀ (event : EventData) (frame : FrameData) (pattern : Str),
      let values := frameValues functions event frame
      let m : Match := ⟨.path, pattern, false⟩
      (m.matches functions values = true ↔
        positivePathMatch functions pattern values.absPath = true ∨
          positivePathMatch functions pattern values.filename = true) ↔
        ¬ m.MissesFilename functions values) ∧
    ∀ (rule : Rule) (event : EventData),
      ((rule.getFingerprintValuesForEventAccess functions event).isSome ↔
        rule.ChosenBoth functions event) ↔
        (rule.OthersMet functions event → (∃ m ∈ rule.matchers, m.matchGroup = .frames) →
          ((∃ values ∈ getFrames functions event, rule.MetBut functions true values) ↔
            ∃ values ∈ getFrames functions event, rule.MetBut functions false values)) := by
  constructor
  · intro event frame pattern values m
    have hmatches : m.matches functions values =
        positivePathMatch functions pattern values.absPath := by
      rw [Match.matches, if_neg Bool.false_ne_true, positiveMatch_path rfl]
    have hmisses : m.MissesFilename functions values ↔
        positivePathMatch functions pattern values.absPath = false ∧
          positivePathMatch functions pattern values.filename = true := and_iff_right rfl
    rw [hmatches, hmisses]
    cases positivePathMatch functions pattern values.absPath <;>
      cases positivePathMatch functions pattern values.filename <;> simp
  · intro rule event
    have hothers : (∀ m ∈ rule.matchers, m.matchGroup ≠ .frames →
        ∃ values ∈ getValues functions event m.matchGroup,
          ∀ other ∈ rule.matchers, other.matchGroup = m.matchGroup →
            other.matchesBoth functions values = true) ↔ rule.OthersMet functions event := by
      refine forall₂_congr fun m _ ↦ forall_congr' fun hgroup ↦ exists_congr fun values ↦
        and_congr_right fun _ ↦ forall₂_congr fun other _ ↦ forall_congr' fun hsame ↦ ?_
      rw [matchesBoth_of_ne_frames (hsame ▸ hgroup)]
    have hmet (values : Values) : (∀ other ∈ rule.matchers, other.matchGroup = .frames →
        other.matches functions values = true) ↔ rule.MetBut functions true values :=
      forall₂_congr fun other _ ↦ forall_congr' fun _ ↦ matches_iff other values
    have hmetBoth (values : Values) : (∀ other ∈ rule.matchers, other.matchGroup = .frames →
        other.matchesBoth functions values = true) ↔ rule.MetBut functions false values :=
      forall₂_congr fun other _ ↦ forall_congr' fun _ ↦ matchesBoth_iff other values
    rw [isSome_getFingerprintValues_iff, Rule.ChosenBoth, forall_matchers_iff,
      forall_matchers_iff functions rule event fun m values ↦ m.matchesBoth functions values = true,
      hothers]
    simp only [hmet, hmetBoth]
    show (rule.OthersMet functions event ∧ _ ↔ rule.OthersMet functions event ∧ _) ↔ _
    rw [and_congr_right_iff]
    refine forall_congr' fun _ ↦ ?_
    exact ⟨fun h hframes ↦ ⟨fun hcode ↦ h.mp (fun _ ↦ hcode) hframes,
      fun hboth ↦ h.mpr (fun _ ↦ hboth) hframes⟩,
      fun h ↦ forall_congr' fun hframes ↦ h hframes⟩

end BothPaths

def plainFunctions : EventFunctions where
  globMatch := fun _ value pattern ↦ value == pattern
  int := fun _ ↦ none
  lower := fun s ↦ s.map Char.toLower
  lower_ascii := fun _ _ ↦ rfl
  trimFunctionName := fun function _ ↦ function
  normalizeSdkTag := fun name ↦ name

def frameOfApp : FrameData where
  platform := none
  function := none
  rawFunction := none
  moduleName := none
  package := none
  absPath := some "/srv/app.py".toList
  filename := some "app.py".toList
  inApp := none
  category := none
  origInApp := none

/-- The pattern is the file name, and the matcher does not match. -/
theorem not_fingerprint : ¬ ∀ (functions : EventFunctions) (event : EventData) (frame : FrameData)
    (pattern : Str),
    let values := frameValues functions event frame
    (⟨.path, pattern, false⟩ : Match).matches functions values = true ↔
      positivePathMatch functions pattern values.absPath = true ∨
        positivePathMatch functions pattern values.filename = true := by
  intro hall
  have hmatches := (hall plainFunctions
    ⟨none, none, none, none, [], [], [], [], none, none⟩ frameOfApp "app.py".toList).mpr
    (Or.inr (by decide))
  exact absurd hmatches (by decide)

end Sentry.Grouping.Fingerprinting
