import Sentry.TransactionClusterer.Tree
import Mathlib.Data.List.TakeWhile

/-!
# Which rules the clusterer extracts

A pattern is a sequence of segments and merged stars; it is obtained by merging when at every prefix
the next edge is a star if the inputs that match the prefix go on with at least `merge_threshold`
distinct segments, and one of those segments otherwise (`ObtainedByMerging`). A node that holds the
rests of some inputs (`Represents`) has, once merged, exactly these patterns as paths
(`has_merge_iff`), and the rules are those that end with a star (`extractRules_characterisation`).
-/

namespace Sentry.TransactionClusterer

open List

def strip : Edge → List Str → Option (List Str)
  | _, [] => none
  | .merged, _ :: rest => some rest
  | .name part, part' :: rest => if part = part' then some rest else none

def nextSegment : List Edge → List Str → Option Str
  | [], parts => parts.head?
  | edge :: pattern, parts => (strip edge parts).bind (nextSegment pattern)

/-- The distinct next segments of the inputs that match the pattern. -/
def nextSegments (inputs : List (List Str)) (pattern : List Edge) : Finset Str :=
  (inputs.filterMap (nextSegment pattern)).toFinset

/-- The edge that merging makes after a pattern: a star for at least `mergeThreshold` distinct next
segments, and one of the next segments otherwise. -/
def EdgeAfter (inputs : List (List Str)) (mergeThreshold : ℕ+) (pattern : List Edge)
    (edge : Edge) : Prop :=
  if (mergeThreshold : ℕ) ≤ (nextSegments inputs pattern).card then edge = .merged
  else ∃ part ∈ nextSegments inputs pattern, edge = .name part

/-- The pattern is obtained by merging along its prefix. -/
def ObtainedByMerging (inputs : List (List Str)) (mergeThreshold : ℕ+) (pattern : List Edge) :
    Prop :=
  ∀ front edge, front ++ [edge] <+: pattern → EdgeAfter inputs mergeThreshold front edge

instance decidableEdgeAfter (inputs : List (List Str)) (mergeThreshold : ℕ+)
    (pattern : List Edge) (edge : Edge) :
    Decidable (EdgeAfter inputs mergeThreshold pattern edge) := by
  unfold EdgeAfter
  infer_instance

def restsAfter (inputs : List (List Str)) (edge : Edge) : List (List Str) :=
  inputs.filterMap (strip edge)

theorem nextSegments_cons (inputs : List (List Str)) (edge : Edge) (pattern : List Edge) :
    nextSegments inputs (edge :: pattern) = nextSegments (restsAfter inputs edge) pattern := by
  rw [nextSegments, nextSegments, restsAfter, filterMap_filterMap]
  rfl

variable {pattern : List Edge}

theorem edgeAfter_cons_iff {inputs : List (List Str)} {mergeThreshold : ℕ+} {first edge : Edge}
    :
    EdgeAfter inputs mergeThreshold (first :: pattern) edge ↔
      EdgeAfter (restsAfter inputs first) mergeThreshold pattern edge := by
  rw [EdgeAfter, EdgeAfter, nextSegments_cons]

variable {inputs : List (List Str)} {mergeThreshold : ℕ+}

theorem obtainedByMerging_nil : ObtainedByMerging inputs mergeThreshold [] := by
  intro front edge h
  exact absurd (prefix_nil.mp h) (by simp)

theorem obtainedByMerging_cons_iff {edge : Edge} :
    ObtainedByMerging inputs mergeThreshold (edge :: pattern) ↔
      EdgeAfter inputs mergeThreshold [] edge ∧
        ObtainedByMerging (restsAfter inputs edge) mergeThreshold pattern := by
  constructor
  · intro h
    refine ⟨h [] edge (by simp), fun front last hfront ↦ ?_⟩
    exact edgeAfter_cons_iff.mp (h (edge :: front) last (by simpa using hfront))
  · rintro ⟨hedge, hrest⟩ front last hfront
    cases front with
    | nil =>
      obtain ⟨rfl, -⟩ := cons_prefix_cons.mp hfront
      exact hedge
    | cons first tail =>
      obtain ⟨rfl, htail⟩ := cons_prefix_cons.mp hfront
      exact edgeAfter_cons_iff.mpr (hrest tail last htail)

instance decidableObtainedByMerging (mergeThreshold : ℕ+) :
    (inputs : List (List Str)) → (pattern : List Edge) →
      Decidable (ObtainedByMerging inputs mergeThreshold pattern)
  | _, [] => isTrue obtainedByMerging_nil
  | inputs, edge :: pattern =>
    have := decidableObtainedByMerging mergeThreshold (restsAfter inputs edge) pattern
    decidable_of_iff _ obtainedByMerging_cons_iff.symm

theorem obtainedByMerging_concat_iff {edge : Edge} :
    ObtainedByMerging inputs mergeThreshold (pattern ++ [edge]) ↔
      ObtainedByMerging inputs mergeThreshold pattern ∧
        EdgeAfter inputs mergeThreshold pattern edge := by
  constructor
  · intro h
    exact ⟨fun front last hfront ↦ h front last (hfront.trans (prefix_append _ _)),
      h pattern edge prefix_rfl⟩
  · rintro ⟨hpattern, hedge⟩ front last hfront
    rcases prefix_concat_iff.mp hfront with heq | hfront
    · obtain ⟨rfl, hlast⟩ := append_inj' heq rfl
      obtain rfl := singleton_injective hlast
      exact hedge
    · exact hpattern front last hfront

/-- The paths of the node are the prefixes of the inputs. -/
structure Represents (node : Node) (inputs : List (List Str)) : Prop where
  uniqueKeys : node.UniqueKeys
  has_iff : ∀ path, node.Has path ↔ path = [] ∨ ∃ parts ∈ inputs, path <+: parts.map Edge.name

theorem represents_empty : Represents .empty [] := by
  refine ⟨trivial, fun path ↦ ?_⟩
  cases path with
  | nil => simp
  | cons edge rest => simp [Node.not_has_empty]

variable {node : Node}

theorem Represents.insert (h : Represents node inputs) (parts : List Str) :
    Represents (node.insert parts) (inputs ++ [parts]) := by
  refine ⟨Node.uniqueKeys_insert parts h.uniqueKeys, fun path ↦ ?_⟩
  rw [Node.has_insert_iff, h.has_iff]
  simp only [mem_append, mem_singleton, or_and_right, exists_or, exists_eq_left]
  exact or_assoc

theorem mem_nextSegments_nil {part : Str} :
    part ∈ nextSegments inputs [] ↔ ∃ rest, part :: rest ∈ inputs := by
  simp only [nextSegments, mem_toFinset, mem_filterMap, nextSegment]
  constructor
  · rintro ⟨parts, hmem, hhead⟩
    obtain ⟨rest, rfl⟩ := head?_eq_some_iff.mp hhead
    exact ⟨rest, hmem⟩
  · rintro ⟨rest, hmem⟩
    exact ⟨_, hmem, rfl⟩

theorem mem_restsAfter_merged {rest : List Str} :
    rest ∈ restsAfter inputs .merged ↔ ∃ part, part :: rest ∈ inputs := by
  simp only [restsAfter, mem_filterMap]
  constructor
  · rintro ⟨_ | ⟨part, rest'⟩, hmem, hstrip⟩
    · cases hstrip
    · obtain rfl := Option.some.inj hstrip
      exact ⟨part, hmem⟩
  · rintro ⟨part, hmem⟩
    exact ⟨_, hmem, rfl⟩

theorem mem_restsAfter_name {part : Str} {rest : List Str} :
    rest ∈ restsAfter inputs (.name part) ↔ part :: rest ∈ inputs := by
  simp only [restsAfter, mem_filterMap]
  constructor
  · rintro ⟨_ | ⟨part', rest'⟩, hmem, hstrip⟩
    · cases hstrip
    · by_cases h : part = part'
      · subst h
        obtain rfl : rest' = rest := by simpa [strip] using hstrip
        exact hmem
      · simp [strip, h] at hstrip
  · intro hmem
    exact ⟨_, hmem, by simp [strip]⟩

theorem Represents.mem_keys_iff (h : Represents node inputs) {edge : Edge} :
    edge ∈ node.items.map Prod.fst ↔ ∃ part ∈ nextSegments inputs [], edge = .name part := by
  have hkey : edge ∈ node.items.map Prod.fst ↔ node.Has [edge] := by
    simp [Node.Has]
  rw [hkey, h.has_iff]
  simp only [cons_ne_nil, false_or, mem_nextSegments_nil]
  constructor
  · rintro ⟨_ | ⟨part, rest⟩, hmem, hfront⟩
    · simp at hfront
    · obtain ⟨rfl, -⟩ := cons_prefix_cons.mp hfront
      exact ⟨part, ⟨rest, hmem⟩, rfl⟩
  · rintro ⟨part, ⟨rest, hmem⟩, rfl⟩
    exact ⟨_, hmem, by simp⟩

theorem Represents.len_eq (h : Represents node inputs) :
    node.len = (nextSegments inputs []).card := by
  have hinj : Function.Injective Edge.name := fun _ _ heq ↦ Edge.name.inj heq
  have hkeys : (node.items.map Prod.fst).toFinset = (nextSegments inputs []).image Edge.name := by
    ext edge
    rw [mem_toFinset, h.mem_keys_iff, Finset.mem_image]
    simp only [eq_comm]
  rw [Node.len, ← length_map (f := Prod.fst),
    ← toFinset_card_of_nodup (Node.uniqueKeys_iff.mp h.uniqueKeys).1, hkeys,
    Finset.card_image_of_injective _ hinj]

theorem exists_name_cons_prefix_iff {part : Str} {path : List Edge} :
    (∃ parts ∈ inputs, .name part :: path <+: parts.map Edge.name) ↔
      ∃ rest ∈ restsAfter inputs (.name part), path <+: rest.map Edge.name := by
  constructor
  · rintro ⟨_ | ⟨part', rest⟩, hmem, hfront⟩
    · simp at hfront
    · obtain ⟨heq, htail⟩ := cons_prefix_cons.mp hfront
      obtain rfl := Edge.name.inj heq
      exact ⟨rest, mem_restsAfter_name.mpr hmem, htail⟩
  · rintro ⟨rest, hmem, hfront⟩
    exact ⟨_, mem_restsAfter_name.mp hmem, cons_prefix_cons.mpr ⟨rfl, hfront⟩⟩

theorem Represents.child {node child : Node} {part : Str} (h : Represents node inputs)
    (hmem : (.name part, child) ∈ node.items) :
    Represents child (restsAfter inputs (.name part)) := by
  refine ⟨(Node.uniqueKeys_iff.mp h.uniqueKeys).2 _ hmem, fun path ↦ ?_⟩
  have hchild : child.Has path ↔ node.Has (.name part :: path) := by
    constructor
    · intro hhas
      exact ⟨child, hmem, hhas⟩
    · rintro ⟨child', hmem', hhas⟩
      exact h.uniqueKeys.child_eq hmem hmem' ▸ hhas
  by_cases hpath : path = []
  · simp [hpath]
  · rw [hchild, h.has_iff, exists_name_cons_prefix_iff]
    simp [hpath]

theorem Represents.mergeNodes (h : Represents node inputs) :
    Represents (.mergeNodes node.values) (restsAfter inputs .merged) := by
  refine ⟨Node.uniqueKeys_mergeNodes _, fun path ↦ ?_⟩
  rw [Node.has_mergeNodes_iff]
  refine or_congr_right ?_
  constructor
  · rintro ⟨child, hvalue, hhas⟩
    obtain ⟨⟨edge, _⟩, hmem, rfl⟩ := mem_map.mp hvalue
    obtain ⟨part, -, rfl⟩ := h.mem_keys_iff.mp (mem_map.mpr ⟨_, hmem, rfl⟩)
    have hpath : node.Has (.name part :: path) := ⟨_, hmem, hhas⟩
    rw [h.has_iff, exists_name_cons_prefix_iff] at hpath
    obtain ⟨rest, hrest, hfront⟩ := hpath.resolve_left (by simp)
    exact ⟨rest, mem_restsAfter_merged.mpr ⟨part, mem_restsAfter_name.mp hrest⟩, hfront⟩
  · rintro ⟨rest, hrest, hfront⟩
    obtain ⟨part, hparts⟩ := mem_restsAfter_merged.mp hrest
    have hpath : node.Has (.name part :: path) :=
      (h.has_iff _).mpr (Or.inr ⟨_, hparts, cons_prefix_cons.mpr ⟨rfl, hfront⟩⟩)
    obtain ⟨child, hmem, hhas⟩ := hpath
    exact ⟨child, mem_map.mpr ⟨_, hmem, rfl⟩, hhas⟩

theorem Represents.has_merge_iff (h : Represents node inputs) {path : List Edge} :
    (node.merge mergeThreshold).Has path ↔ ObtainedByMerging inputs mergeThreshold path := by
  -- By induction on the path: one edge leads to a child that represents the rests after it.
  induction path generalizing node inputs with
  | nil => simp [obtainedByMerging_nil]
  | cons edge path ih =>
    rw [Node.has_merge_cons_iff, obtainedByMerging_cons_iff, EdgeAfter, ← h.len_eq]
    by_cases hlen : (mergeThreshold : ℕ) ≤ node.len
    · have hitems : (node.collapse mergeThreshold).items =
          [(.merged, .mergeNodes node.values)] := by
        rw [Node.collapse, if_pos hlen]
        rfl
      simp only [hitems, mem_singleton, Prod.mk.injEq, if_pos hlen, and_assoc,
        exists_and_left, exists_eq_left]
      refine and_congr_right ?_
      rintro rfl
      exact ih h.mergeNodes
    · have hitems : (node.collapse mergeThreshold).items = node.items := by
        rw [Node.collapse, if_neg hlen]
      rw [hitems, if_neg hlen, ← h.mem_keys_iff]
      constructor
      · rintro ⟨child, hmem, hhas⟩
        have hkey : edge ∈ node.items.map Prod.fst := mem_map.mpr ⟨_, hmem, rfl⟩
        obtain ⟨part, -, rfl⟩ := h.mem_keys_iff.mp hkey
        exact ⟨hkey, (ih (h.child hmem)).mp hhas⟩
      · rintro ⟨hkey, hobtained⟩
        obtain ⟨part, -, rfl⟩ := h.mem_keys_iff.mp hkey
        obtain ⟨⟨_, child⟩, hmem, heq⟩ := mem_map.mp hkey
        obtain rfl : _ = Edge.name part := heq
        exact ⟨child, hmem, (ih (h.child hmem)).mpr hobtained⟩

theorem sep_notMem_of_mem_splitOn {string part : Str} (h : part ∈ string.splitOn sep) :
    sep ∉ part := by
  by_cases hmem : sep ∈ string
  · obtain ⟨before, after, hstring, hbefore⟩ := eq_append_cons_of_mem hmem
    rw [hstring, splitOn_append_cons_self_of_not_mem hbefore] at h
    rcases mem_cons.mp h with rfl | hafter
    · exact hbefore
    · exact sep_notMem_of_mem_splitOn hafter
  · rw [splitOn_eq_singleton hmem, mem_singleton] at h
    exact h ▸ hmem
termination_by string.length
decreasing_by
  rw [hstring, length_append, length_cons]
  omega

/-- With at most `maxsplit` separators the string is split at all of them. -/
theorem split_eq_splitOn {maxsplit : ℕ} {string : Str} (h : string.count sep ≤ maxsplit) :
    split maxsplit string = string.splitOn sep := by
  induction maxsplit generalizing string with
  | zero =>
    have hmem : sep ∉ string := count_eq_zero.mp (Nat.le_zero.mp h)
    rw [splitOn_eq_singleton hmem, split]
  | succ maxsplit ih =>
    by_cases hmem : sep ∈ string
    · obtain ⟨before, after, rfl, hbefore⟩ := eq_append_cons_of_mem hmem
      have hne : ∀ c ∈ before, decide (c ≠ sep) = true := by
        intro c hc
        exact decide_eq_true fun heq ↦ hbefore (heq ▸ hc)
      have hcount : after.count sep ≤ maxsplit := by
        simp only [count_append, count_cons_self] at h
        omega
      have hdrop : (before ++ sep :: after).dropWhile (fun c ↦ decide (c ≠ sep)) =
          sep :: after := by
        rw [dropWhile_append_of_pos hne, dropWhile_cons_of_neg (by simp)]
      have htake : (before ++ sep :: after).takeWhile (fun c ↦ decide (c ≠ sep)) = before := by
        rw [takeWhile_append_of_pos hne, takeWhile_cons_of_neg (by simp), append_nil]
      rw [split, hdrop, htake, splitOn_append_cons_self_of_not_mem hbefore]
      exact congrArg (before :: ·) (ih hcount)
    · have hdrop : string.dropWhile (fun c ↦ decide (c ≠ sep)) = [] := by
        refine dropWhile_eq_nil_iff.mpr fun c hc ↦ ?_
        exact decide_eq_true fun heq ↦ hmem (heq ▸ hc)
      rw [split, hdrop, splitOn_eq_singleton hmem]

theorem ObtainedByMerging.sep_notMem_write (h : ObtainedByMerging inputs mergeThreshold pattern)
    (hinputs : ∀ parts ∈ inputs, ∀ part ∈ parts, sep ∉ part) :
    ∀ part ∈ pattern.map Edge.write, sep ∉ part := by
  induction pattern generalizing inputs with
  | nil => simp
  | cons edge pattern ih =>
    obtain ⟨hedge, hrest⟩ := obtainedByMerging_cons_iff.mp h
    have hrests : ∀ parts ∈ restsAfter inputs edge, ∀ part ∈ parts, sep ∉ part := by
      intro rest hmem part hpart
      cases edge with
      | name first =>
        exact hinputs _ (mem_restsAfter_name.mp hmem) part (mem_cons_of_mem _ hpart)
      | merged =>
        obtain ⟨first, hparts⟩ := mem_restsAfter_merged.mp hmem
        exact hinputs _ hparts part (mem_cons_of_mem _ hpart)
    rw [map_cons, forall_mem_cons]
    refine ⟨?_, ih hrest hrests⟩
    cases edge with
    | merged => decide
    | name first =>
      rw [EdgeAfter] at hedge
      split_ifs at hedge
      obtain ⟨part, hpart, heq⟩ := hedge
      obtain rfl := Edge.name.inj heq
      obtain ⟨rest, hmem⟩ := mem_nextSegments_nil.mp hpart
      exact hinputs _ hmem first mem_cons_self

theorem EdgeAfter.eq_of_write_eq {edge edge' : Edge}
    (h : EdgeAfter inputs mergeThreshold pattern edge)
    (h' : EdgeAfter inputs mergeThreshold pattern edge') (hwrite : edge.write = edge'.write) :
    edge = edge' := by
  rw [EdgeAfter] at h h'
  split_ifs at h h'
  · rw [h, h']
  · obtain ⟨part, -, rfl⟩ := h
    obtain ⟨part', -, rfl⟩ := h'
    exact congrArg Edge.name hwrite

theorem ObtainedByMerging.eq_of_write_eq {pattern pattern' : List Edge}
    (h : ObtainedByMerging inputs mergeThreshold pattern)
    (h' : ObtainedByMerging inputs mergeThreshold pattern')
    (hwrite : pattern.map Edge.write = pattern'.map Edge.write) : pattern = pattern' := by
  induction pattern generalizing inputs pattern' with
  | nil => exact (map_eq_nil_iff.mp hwrite.symm).symm
  | cons edge pattern ih =>
    obtain ⟨edge', pattern', rfl, hedge, hpattern⟩ := map_eq_cons_iff.mp hwrite.symm
    obtain ⟨hfirst, hrest⟩ := obtainedByMerging_cons_iff.mp h
    obtain ⟨hfirst', hrest'⟩ := obtainedByMerging_cons_iff.mp h'
    obtain rfl := hfirst.eq_of_write_eq hfirst' hedge.symm
    rw [ih hrest hrest' hpattern.symm]

theorem ObtainedByMerging.eq_of_buildRule_eq {pattern pattern' : List Edge}
    (hinputs : ∀ parts ∈ inputs, ∀ part ∈ parts, sep ∉ part)
    (h : ObtainedByMerging inputs mergeThreshold pattern)
    (h' : ObtainedByMerging inputs mergeThreshold pattern') (hne : pattern ≠ [])
    (hne' : pattern' ≠ []) (hrule : buildRule pattern = buildRule pattern') :
    pattern = pattern' := by
  have hjoin := append_cancel_right hrule
  have hsplit := congrArg (List.splitOn sep) hjoin
  rw [splitOn_intercalate sep (h.sep_notMem_write hinputs) (by simpa using hne),
    splitOn_intercalate sep (h'.sep_notMem_write hinputs) (by simpa using hne')] at hsplit
  exact h.eq_of_write_eq h' hsplit

/-- The clusterer after a sequence of `add_input` calls. -/
def addInputs (mergeThreshold : ℕ+) (calls : List (List Str)) : TreeClusterer :=
  calls.foldl TreeClusterer.addInput (.new mergeThreshold)

/-- The segments of the strings of the calls. -/
def inputsOf (calls : List (List Str)) : List (List Str) :=
  calls.flatten.map (List.splitOn sep)

theorem addInputs_eq (mergeThreshold : ℕ+) (calls : List (List Str)) :
    addInputs mergeThreshold calls =
      ⟨mergeThreshold, calls.flatten.foldl
        (fun tree string ↦ tree.insert (split maxDepth string)) .empty⟩ := by
  induction calls using reverseRecOn with
  | nil => rfl
  | append_singleton calls strings ih =>
    rw [addInputs, foldl_append, ← addInputs, ih]
    simp [TreeClusterer.addInput]

variable {calls : List (List Str)}

/-- Assumes: no string has more than `MAX_DEPTH` separators. The tree represents the segments of the
strings. -/
theorem represents_addInputs (mergeThreshold : ℕ+)
    (hdepth : ∀ string ∈ calls.flatten, string.count sep ≤ maxDepth) :
    Represents (addInputs mergeThreshold calls).tree (inputsOf calls) := by
  have hfold : ∀ strings : List Str, (∀ string ∈ strings, string.count sep ≤ maxDepth) →
      Represents (strings.foldl (fun tree string ↦ tree.insert (split maxDepth string)) .empty)
        (strings.map (List.splitOn sep)) := by
    intro strings hstrings
    induction strings using reverseRecOn with
    | nil => exact represents_empty
    | append_singleton strings string ih =>
      have hlast : split maxDepth string = string.splitOn sep :=
        split_eq_splitOn (hstrings string (by simp))
      rw [foldl_append, map_append, foldl_cons, foldl_nil, hlast]
      exact (ih fun s hs ↦ hstrings s (mem_append_left _ hs)).insert _
  rw [addInputs_eq]
  exact hfold _ hdepth

theorem sep_notMem_inputsOf (calls : List (List Str)) :
    ∀ parts ∈ inputsOf calls, ∀ part ∈ parts, sep ∉ part := by
  intro parts hparts part hpart
  obtain ⟨string, -, rfl⟩ := mem_map.mp hparts
  exact sep_notMem_of_mem_splitOn hpart

/-- The pattern is merged: the inputs that match it have at least `mergeThreshold` distinct next
segments, and it is itself obtained by merging. -/
def MergedAfter (inputs : List (List Str)) (mergeThreshold : ℕ+) (pattern : List Edge) : Prop :=
  ObtainedByMerging inputs mergeThreshold pattern ∧
    (mergeThreshold : ℕ) ≤ (nextSegments inputs pattern).card

theorem obtainedByMerging_concat_merged_iff :
    ObtainedByMerging inputs mergeThreshold (pattern ++ [.merged]) ↔
      MergedAfter inputs mergeThreshold pattern := by
  rw [obtainedByMerging_concat_iff, MergedAfter, EdgeAfter]
  split_ifs with h
  · simp [h]
  · simp [h]

section

variable (hdepth : ∀ string ∈ calls.flatten, string.count sep ≤ maxDepth)

include hdepth

theorem mem_rulePaths_iff {path : List Edge} :
    path ∈ (addInputs mergeThreshold calls).rulePaths ↔
      ∃ pattern, MergedAfter (inputsOf calls) mergeThreshold pattern ∧
        path = pattern ++ [.merged] := by
  have hrepresents := represents_addInputs mergeThreshold hdepth
  have hthreshold : (addInputs mergeThreshold calls).mergeThreshold = mergeThreshold := by
    rw [addInputs_eq]
  simp only [TreeClusterer.rulePaths, mem_filter, Node.mem_paths_iff, hthreshold,
    hrepresents.has_merge_iff, nil_append, decide_eq_true_eq]
  constructor
  · rintro ⟨⟨below, hne, rfl, hobtained⟩, hlast⟩
    obtain ⟨pattern, rfl⟩ := getLast?_eq_some_iff.mp hlast
    exact ⟨pattern, obtainedByMerging_concat_merged_iff.mp hobtained, rfl⟩
  · rintro ⟨pattern, hmerged, rfl⟩
    refine ⟨⟨_, by simp, rfl, obtainedByMerging_concat_merged_iff.mpr hmerged⟩, by simp⟩

/-- Assumes: no string has more than `MAX_DEPTH` separators. The rules are those of the merged
patterns. -/
theorem mem_extractRules_iff {rule : Str} :
    rule ∈ (addInputs mergeThreshold calls).extractRules ↔
      ∃ pattern, MergedAfter (inputsOf calls) mergeThreshold pattern ∧
        rule = buildRule (pattern ++ [.merged]) := by
  have hpaths : rule ∈ (addInputs mergeThreshold calls).extractRules ↔
      ∃ path ∈ (addInputs mergeThreshold calls).rulePaths, buildRule path = rule := mem_map
  rw [hpaths]
  constructor
  · rintro ⟨path, hmem, rfl⟩
    obtain ⟨pattern, hmerged, rfl⟩ := (mem_rulePaths_iff hdepth).mp hmem
    exact ⟨pattern, hmerged, rfl⟩
  · rintro ⟨pattern, hmerged, rfl⟩
    exact ⟨_, (mem_rulePaths_iff hdepth).mpr ⟨pattern, hmerged, rfl⟩, rfl⟩

theorem nodup_extractRules : (addInputs mergeThreshold calls).extractRules.Nodup := by
  have hrepresents := represents_addInputs mergeThreshold hdepth
  have hpaths : (addInputs mergeThreshold calls).rulePaths.Nodup :=
    (Node.nodup_paths (Node.uniqueKeys_merge _ hrepresents.uniqueKeys) []).filter _
  refine List.Nodup.map_on (fun path hpath path' hpath' hrule ↦ ?_) hpaths
  obtain ⟨pattern, hmerged, rfl⟩ := (mem_rulePaths_iff hdepth).mp hpath
  obtain ⟨pattern', hmerged', rfl⟩ := (mem_rulePaths_iff hdepth).mp hpath'
  exact (obtainedByMerging_concat_merged_iff.mpr hmerged).eq_of_buildRule_eq
    (sep_notMem_inputsOf calls) (obtainedByMerging_concat_merged_iff.mpr hmerged') (by simp)
    (by simp) hrule

end

theorem mergedAfter_congr {inputs' : List (List Str)}
    (h : ∀ parts, parts ∈ inputs' ↔ parts ∈ inputs) :
    MergedAfter inputs' mergeThreshold pattern ↔ MergedAfter inputs mergeThreshold pattern := by
  have hnext : ∀ front, nextSegments inputs' front = nextSegments inputs front := by
    intro front
    ext part
    simp only [nextSegments, mem_toFinset, mem_filterMap, h]
  simp only [MergedAfter, ObtainedByMerging, EdgeAfter, hnext]

/-- Assumes: no string has more than `MAX_DEPTH` separators. Before cleaning, the rules are exactly
those of the patterns that are obtained by merging and whose matching inputs have at least
`mergeThreshold` distinct next segments, each once; calls with the same strings in any order,
batches and repetition extract the same rules. -/
theorem extractRules_characterisation (mergeThreshold : ℕ+) (calls : List (List Str))
    (hdepth : ∀ string ∈ calls.flatten, string.count sep ≤ maxDepth) :
    (∀ rule, rule ∈ (addInputs mergeThreshold calls).extractRules ↔
        ∃ pattern, ObtainedByMerging (inputsOf calls) mergeThreshold pattern ∧
          (mergeThreshold : ℕ) ≤ (nextSegments (inputsOf calls) pattern).card ∧
          rule = buildRule (pattern ++ [.merged])) ∧
      (addInputs mergeThreshold calls).extractRules.Nodup ∧
      ∀ calls' : List (List Str), (∀ string, string ∈ calls'.flatten ↔ string ∈ calls.flatten) →
        (addInputs mergeThreshold calls').extractRules.Perm
          (addInputs mergeThreshold calls).extractRules := by
  refine ⟨fun rule ↦ ?_, nodup_extractRules hdepth, fun calls' hsame ↦ ?_⟩
  · simpa only [MergedAfter, and_assoc] using mem_extractRules_iff hdepth
  · have hdepth' : ∀ string ∈ calls'.flatten, string.count sep ≤ maxDepth :=
      fun string hmem ↦ hdepth string ((hsame string).mp hmem)
    refine (perm_ext_iff_of_nodup (nodup_extractRules hdepth')
      (nodup_extractRules hdepth)).mpr fun rule ↦ ?_
    have hinputs : ∀ parts, parts ∈ inputsOf calls' ↔ parts ∈ inputsOf calls := by
      intro parts
      simp only [inputsOf, mem_map, hsame]
    simp only [mem_extractRules_iff hdepth, mem_extractRules_iff hdepth', mergedAfter_congr hinputs]

/-- Only the merge of the ids brings two segments together under `posts`. -/
theorem extractRules_characterisation_posts :
    let calls : List (List Str) :=
      [["u/1/posts/a".toList], ["u/2/posts/b".toList, "u/1/posts/a".toList]]
    "u/*/**".toList ∈ (addInputs 2 calls).extractRules ∧
      "u/*/posts/*/**".toList ∈ (addInputs 2 calls).extractRules := by
  intro calls
  obtain ⟨hmem, -, -⟩ := extractRules_characterisation 2 calls (by decide)
  refine ⟨(hmem _).mpr ⟨[.name ['u']], ?_⟩,
    (hmem _).mpr ⟨[.name ['u'], .merged, .name "posts".toList], ?_⟩⟩
  all_goals exact ⟨by decide, by decide, by decide⟩

end Sentry.TransactionClusterer
