import Sentry.Grouping.EnhancementRules
import Mathlib.Data.List.Forall2

/-!
# Stored enhancement rules

A stored matcher reads back as the matcher with its key and, if it is for the family or for `app`,
with a pattern that lists only the known families or is `1`, `0` or empty (`FrameMatch.stored`).
These patterns match the same frames, so stored rules read back as rules that match the same frames
and have the same actions (`rules_roundTrip`).
-/

namespace Sentry.Grouping

open List

variable (text : TextFunctions)

/-- The pattern that `_from_config_structure` makes. -/
def FrameMatch.storedPattern (m : FrameMatch) : Str :=
  if m.key = .family then [','].intercalate ((m.configArg text).filterMap reverseFamilies)
  else m.configArg text

/-- The matcher that `_from_config_structure` makes. -/
def FrameMatch.stored (m : FrameMatch) : FrameMatch := { m with pattern := m.storedPattern text }

/-- The same within the caller and the callee. -/
def Match.stored : Match → Match
  | .frame m => .frame (m.stored text)
  | .caller inner => .caller inner.stored
  | .callee inner => .callee inner.stored

/-- The rule that `_from_config_structure` makes. -/
def Rule.stored (rule : Rule) : Rule := ⟨rule.matchers.map (Match.stored text), rule.actions⟩

theorem enclosed_append (opening closing inner : Str) :
    enclosed opening closing (opening ++ inner ++ closing) = some inner := by
  have hval : opening <+: opening ++ inner ++ closing ∧ closing <:+ opening ++ inner ++ closing :=
    ⟨⟨inner ++ closing, by rw [append_assoc]⟩, suffix_append _ _⟩
  rw [enclosed, if_pos hval, length_append, Nat.add_sub_cancel, take_left, drop_left]

theorem enclosed_cons_of_ne {c d : Char} (h : c ≠ d) (opening closing rest : Str) :
    enclosed (c :: opening) closing (d :: rest) = none := by
  refine if_neg fun hval ↦ ?_
  exact h (List.cons_prefix_cons.mp hval.1).1

theorem shortMatchKeys_short (key : MatchKey) : shortMatchKeys key.short = some key := by
  cases key <;> rfl

theorem short_notMem (key : MatchKey) : key.short ∉ ['[', '|', '!'] := by
  cases key <;> decide

/-- The string of a frame matcher starts with its key or with `!`, so it is not taken for that of a
caller or a callee. -/
theorem enclosed_frame (m : FrameMatch) :
    enclosed "|[".toList "]".toList (m.toConfigStructure text) = none ∧
      enclosed "[".toList "]|".toList (m.toConfigStructure text) = none := by
  have hshort := short_notMem m.key
  simp only [mem_cons, not_mem_nil, or_false, not_or] at hshort
  unfold FrameMatch.toConfigStructure
  cases m.negated
  · exact ⟨enclosed_cons_of_ne (Ne.symm hshort.2.1) _ _ _,
      enclosed_cons_of_ne (Ne.symm hshort.1) _ _ _⟩
  · exact ⟨enclosed_cons_of_ne (by decide) _ _ _, enclosed_cons_of_ne (by decide) _ _ _⟩

theorem FrameMatch.fromConfigStructure_toConfigStructure (m : FrameMatch) :
    FrameMatch.fromConfigStructure (m.toConfigStructure text) = some (m.stored text) := by
  have hshort : m.key.short ≠ '!' := by
    intro h
    exact short_notMem m.key (by simp [h])
  unfold FrameMatch.toConfigStructure FrameMatch.fromConfigStructure
  cases hnegated : m.negated with
  | true =>
    simp [shortMatchKeys_short, FrameMatch.stored, FrameMatch.storedPattern, hnegated]
  | false =>
    simp [shortMatchKeys_short, hshort, FrameMatch.stored, FrameMatch.storedPattern, hnegated]

theorem Match.fromConfigStructure_callee (inner : Str) :
    Match.fromConfigStructure ("|[".toList ++ inner ++ "]".toList) =
      (Match.fromConfigStructure inner).map .callee := by
  have hcallee := enclosed_append "|[".toList "]".toList inner
  rw [Match.fromConfigStructure]
  split
  · rename_i inner' hinner
    rw [Option.some.inj (hcallee.symm.trans hinner)]
  · rename_i hnone
    exact absurd (hcallee.symm.trans hnone) (Option.some_ne_none inner)

theorem Match.fromConfigStructure_caller (inner : Str) :
    Match.fromConfigStructure ("[".toList ++ inner ++ "]|".toList) =
      (Match.fromConfigStructure inner).map .caller := by
  have hcallee : enclosed "|[".toList "]".toList ("[".toList ++ inner ++ "]|".toList) = none :=
    enclosed_cons_of_ne (by decide) _ _ _
  have hcaller := enclosed_append "[".toList "]|".toList inner
  rw [Match.fromConfigStructure]
  split
  · rename_i inner' hinner
    exact absurd (hcallee.symm.trans hinner) (Option.some_ne_none inner').symm
  · split
    · rename_i inner' hinner
      rw [Option.some.inj (hcaller.symm.trans hinner)]
    · rename_i hnone
      exact absurd (hcaller.symm.trans hnone) (Option.some_ne_none inner)

theorem Match.fromConfigStructure_frame (m : FrameMatch) :
    Match.fromConfigStructure (m.toConfigStructure text) = some (.frame (m.stored text)) := by
  have hframe := enclosed_frame text m
  rw [Match.fromConfigStructure]
  split
  · rename_i inner hinner
    exact absurd (hframe.1.symm.trans hinner) (Option.some_ne_none inner).symm
  · split
    · rename_i inner hinner
      exact absurd (hframe.2.symm.trans hinner) (Option.some_ne_none inner).symm
    · rw [m.fromConfigStructure_toConfigStructure text]
      rfl

theorem Match.fromConfigStructure_toConfigStructure (m : Match) :
    Match.fromConfigStructure (m.toConfigStructure text) = some (m.stored text) := by
  induction m with
  | frame m => exact Match.fromConfigStructure_frame text m
  | caller inner ih =>
    rw [Match.toConfigStructure, Match.fromConfigStructure_caller, ih]
    rfl
  | callee inner ih =>
    rw [Match.toConfigStructure, Match.fromConfigStructure_callee, ih]
    rfl

theorem reverseFamilies_of_families {name : Str} {letter : Char} (h : families name = some letter) :
    reverseFamilies letter = some name := by
  unfold families at h
  split_ifs at h with hnative hjavascript hother hall
  · obtain rfl := Option.some.inj h
    rw [hnative]
    rfl
  · obtain rfl := Option.some.inj h
    rw [hjavascript]
    rfl
  · obtain rfl := Option.some.inj h
    rw [hother]
    rfl
  · obtain rfl := Option.some.inj h
    rw [hall]
    rfl

theorem filterMap_reverseFamilies (names : List Str) :
    (names.filterMap families).filterMap reverseFamilies =
      names.filter fun name ↦ (families name).isSome := by
  induction names with
  | nil => rfl
  | cons name rest ih =>
    cases hname : families name with
    | none => simp [hname, ih]
    | some letter => simp [hname, reverseFamilies_of_families hname, ih]

theorem comma_notMem_of_isSome {name : Str} (h : (families name).isSome) : ',' ∉ name := by
  unfold families at h
  split_ifs at h with hnative hjavascript hother hall
  · rw [hnative]
    decide
  · rw [hjavascript]
    decide
  · rw [hother]
    decide
  · rw [hall]
    decide
  · exact absurd h Bool.false_ne_true

theorem mem_splitOn_storedPattern {m : FrameMatch} (hkey : m.key = .family) {name : Str}
    (hname : (families name).isSome) :
    name ∈ (m.storedPattern text).splitOn ',' ↔ name ∈ m.pattern.splitOn ',' := by
  have hpattern : m.storedPattern text = [','].intercalate
      ((m.pattern.splitOn ',').filter fun name ↦ (families name).isSome) := by
    rw [FrameMatch.storedPattern, if_pos hkey, ← filterMap_reverseFamilies, FrameMatch.configArg,
      hkey]
  have hmem : name ∈ (m.pattern.splitOn ',').filter (fun name ↦ (families name).isSome) ↔
      name ∈ m.pattern.splitOn ',' := by
    rw [mem_filter, and_iff_left hname]
  rw [hpattern, ← hmem]
  by_cases hnil : (m.pattern.splitOn ',').filter (fun name ↦ (families name).isSome) = []
  · rw [hnil]
    have hne : name ≠ [] := by
      rintro rfl
      exact absurd hname (by decide)
    simpa using hne
  · rw [splitOn_intercalate ',' _ hnil]
    intro known hknown
    exact comma_notMem_of_isSome (List.mem_filter.mp hknown).2

theorem familyMatch_stored {m : FrameMatch} (hkey : m.key = .family) (family : BehaviorFamily) :
    (m.stored text).familyMatch family = m.familyMatch family := by
  have hfamily : (families family.name).isSome := by
    cases family <;> decide
  have hall : (families "all".toList).isSome := by decide
  unfold FrameMatch.familyMatch
  rw [FrameMatch.stored]
  simp only [mem_splitOn_storedPattern text hkey hfamily, mem_splitOn_storedPattern text hkey hall]

/-- `get_rule_bool` of the stored flag. -/
theorem getRuleBool_storedPattern {m : FrameMatch} (hkey : m.key = .app) :
    getRuleBool text (m.storedPattern text) = getRuleBool text m.pattern := by
  have hone : text.lower ['1'] = ['1'] := text.lower_ascii _ (by simp)
  have hzero : text.lower ['0'] = ['0'] := text.lower_ascii _ (by simp)
  have hpattern : m.storedPattern text = m.configArg text := if_neg (hkey ▸ by decide)
  rw [hpattern, FrameMatch.configArg, hkey]
  cases hbool : getRuleBool text m.pattern with
  | none => rfl
  | some value =>
    cases value with
    | true => simp [getRuleBool, hone]
    | false => simp [getRuleBool, hzero]

theorem FrameMatch.matchesFrame_stored (m : FrameMatch) (frames : List MatchFrame) (idx : ℤ)
    (exceptionData : Option ExceptionData) :
    (m.stored text).matchesFrame text frames idx exceptionData =
      m.matchesFrame text frames idx exceptionData := by
  by_cases hfamily : m.key = .family
  · have hstored : (m.stored text).key = .family := hfamily
    simp only [FrameMatch.matchesFrame, hfamily, hstored, familyMatch_stored text hfamily]
    rfl
  by_cases happ : m.key = .app
  · have hstored : (m.stored text).key = .app := happ
    have hbool : getRuleBool text (m.stored text).pattern = getRuleBool text m.pattern :=
      getRuleBool_storedPattern text happ
    simp only [FrameMatch.matchesFrame, happ, hstored, FrameMatch.inAppMatch, hbool]
    rfl
  · -- The pattern is stored as it is.
    have hpattern : m.storedPattern text = m.pattern := by
      rw [FrameMatch.storedPattern, if_neg hfamily, FrameMatch.configArg]
      split
      · exact absurd ‹_› hfamily
      · exact absurd ‹_› happ
      · rfl
    rw [FrameMatch.stored, hpattern]

theorem Match.matchesFrame_stored (frames : List MatchFrame) (exceptionData : Option ExceptionData)
    (m : Match) (idx : ℤ) : (m.stored text).matchesFrame text frames exceptionData idx =
      m.matchesFrame text frames exceptionData idx := by
  induction m generalizing idx with
  | frame m => exact m.matchesFrame_stored text frames idx exceptionData
  | caller inner ih => simp only [Match.stored, Match.matchesFrame, ih]
  | callee inner ih => simp only [Match.stored, Match.matchesFrame, ih]

theorem Match.isExceptionMatch_stored (m : Match) :
    (m.stored text).isExceptionMatch = m.isExceptionMatch := by
  cases m <;> rfl

theorem Action.fromConfigStructure_toConfigStructure (action : Action) :
    Action.fromConfigStructure text action.toConfigStructure = some action := by
  cases action with
  | flag key value range =>
    rcases range with _ | range
    · cases key <;> cases value <;> rfl
    · cases key <;> cases value <;> cases range <;> rfl
  | var action => cases action <;> rfl

/-- Assumes: each element reads back as its image. A list of them does so too. -/
theorem mapM_map_eq_some {α β γ : Type*} {write : α → β} {read : β → Option γ} {stored : α → γ}
    (h : ∀ a, read (write a) = some (stored a)) (l : List α) :
    (l.map write).mapM read = some (l.map stored) := by
  rw [mapM_map]
  have hread : read ∘ write = fun a ↦ pure (stored a) := funext h
  rw [hread]
  exact mapM_pure

theorem Rule.fromConfigStructure_toConfigStructure (rule : Rule) :
    Rule.fromConfigStructure text (rule.toConfigStructure text) = some (rule.stored text) := by
  have hmatchers :=
    mapM_map_eq_some (Match.fromConfigStructure_toConfigStructure text) rule.matchers
  have hactions : (rule.actions.map Action.toConfigStructure).mapM
      (Action.fromConfigStructure text) = some (rule.actions.map id) :=
    mapM_map_eq_some (Action.fromConfigStructure_toConfigStructure text) rule.actions
  rw [map_id] at hactions
  simp only [Rule.fromConfigStructure, Rule.toConfigStructure, hmatchers, hactions]
  rfl

theorem allMatch_stored (frames : List MatchFrame) (exceptionData : Option ExceptionData) (idx : ℤ)
    (matchers : List Match) :
    allMatch text frames exceptionData idx (matchers.map (Match.stored text)) =
      allMatch text frames exceptionData idx matchers := by
  induction matchers with
  | nil => rfl
  | cons m rest ih =>
    simp only [map_cons, allMatch, m.matchesFrame_stored text, ih]

theorem Rule.getMatchingFrameActions_stored (rule : Rule) (frames : List MatchFrame)
    (exceptionData : Option ExceptionData) :
    (rule.stored text).getMatchingFrameActions text frames exceptionData =
      rule.getMatchingFrameActions text frames exceptionData := by
  have hexception : (rule.matchers.map (Match.stored text)).filter (·.isExceptionMatch) =
      (rule.matchers.filter (·.isExceptionMatch)).map (Match.stored text) := by
    rw [filter_map]
    congr 2
    funext m
    exact m.isExceptionMatch_stored text
  have hother : (rule.matchers.map (Match.stored text)).filter (fun m ↦ !m.isExceptionMatch) =
      (rule.matchers.filter fun m ↦ !m.isExceptionMatch).map (Match.stored text) := by
    rw [filter_map]
    congr 2
    funext m
    exact congrArg not (m.isExceptionMatch_stored text)
  simp only [Rule.getMatchingFrameActions, Rule.stored, hexception, hother, allMatch_stored,
    map_eq_nil_iff]

/-- The matchers match the same frames one by one, the actions are the same, and so are the actions
for the matching frames. -/
structure Rule.SameAs (rule other : Rule) : Prop where
  matchers : List.Forall₂ (fun m m' ↦ ∀ frames idx exceptionData,
    m'.matchesFrame text frames exceptionData idx = m.matchesFrame text frames exceptionData idx)
    rule.matchers other.matchers
  actions : other.actions = rule.actions
  matching : ∀ frames exceptionData, other.getMatchingFrameActions text frames exceptionData =
    rule.getMatchingFrameActions text frames exceptionData

theorem Rule.sameAs_stored (rule : Rule) : rule.SameAs text (rule.stored text) where
  matchers := by
    rw [Rule.stored, forall₂_map_right_iff, forall₂_same]
    intro m _ frames idx exceptionData
    exact m.matchesFrame_stored text frames exceptionData idx
  actions := rfl
  matching := rule.getMatchingFrameActions_stored text

/-- Stored rules read back as rules that match the same frames and have the same actions. -/
theorem rules_roundTrip (rules : List Rule) :
    ∃ rules', (rules.map (Rule.toConfigStructure text)).mapM (Rule.fromConfigStructure text) =
      some rules' ∧ List.Forall₂ (Rule.SameAs text) rules rules' := by
  refine ⟨rules.map (Rule.stored text),
    mapM_map_eq_some (Rule.fromConfigStructure_toConfigStructure text) rules, ?_⟩
  rw [forall₂_map_right_iff, forall₂_same]
  intro rule _
  exact rule.sameAs_stored text

end Sentry.Grouping
