import Sentry.Library.Grouping
import Mathlib.Data.PNat.Basic
import Mathlib.Data.Finset.Card

/-!
# The tree of the transaction clusterer

`ingest/transaction_clusterer/tree.py`. Transaction names are collected in a tree whose edges are
their segments. The subtrees of a node with at least `merge_threshold` children are united under the
one edge `MERGED`, and the result is merged in turn. A node is told by its paths (`Node.Has`) and by
having every key once (`Node.UniqueKeys`), through insertion (`has_insert_iff`) and merging
(`has_mergeNodes_iff`).
-/

namespace Sentry.TransactionClusterer

open Library List

/-- A string as its characters. -/
abbrev Str := List Char

def sep : Char := '/'

def maxDepth : ℕ := 200

/-- `string.split(SEP, maxsplit)`. -/
def split : ℕ → Str → List Str
  | 0, string => [string]
  | maxsplit + 1, string =>
    match string.dropWhile (· ≠ sep) with
    | [] => [string]
    | _ :: after => string.takeWhile (· ≠ sep) :: split maxsplit after

/-- `Edge`: a segment, or `MERGED`. -/
inductive Edge
  | name (part : Str)
  | merged
  deriving DecidableEq

/-- `Node`: a dictionary from edges to nodes, as its items in the order of their insertion. -/
inductive Node
  | empty
  | item (name : Edge) (child rest : Node)
  deriving DecidableEq

namespace Node

/-- `items()`. -/
def items : Node → List (Edge × Node)
  | empty => []
  | item name child rest => (name, child) :: rest.items

def ofItems : List (Edge × Node) → Node
  | [] => empty
  | (name, child) :: rest => item name child (ofItems rest)

/-- `values()`. -/
def values (node : Node) : List Node := node.items.map Prod.snd

/-- `len(node)`. -/
def len (node : Node) : ℕ := node.items.length

/-- `setdefault(name, Node())`, with what is done to the child afterwards. -/
def setdefault (name : Edge) (change : Node → Node) : Node → Node
  | empty => item name (change empty) empty
  | item name' child rest =>
    if name' = name then item name' (change child) rest
    else item name' child (setdefault name change rest)

/-- The loop of `add_input` over the parts of one string. -/
def insert : List Str → Node → Node
  | [], node => node
  | part :: rest, node => node.setdefault (.name part) (insert rest)

def paths : Node → List Edge → List (List Edge)
  | empty, _ => []
  | item name child rest, ancestors =>
    (ancestors ++ [name]) :: (child.paths (ancestors ++ [name]) ++ rest.paths ancestors)

def height : Node → ℕ
  | empty => 0
  | item _ child rest => max (child.height + 1) rest.height

def maxHeight (nodes : List Node) : ℕ := nodes.foldr (fun node h ↦ max node.height h) 0

@[simp] theorem items_ofItems (items : List (Edge × Node)) : (ofItems items).items = items := by
  induction items with
  | nil => rfl
  | cons entry rest ih => simp [ofItems, Node.items, ih]

theorem height_lt_of_mem {node child : Node} {name : Edge} (h : (name, child) ∈ node.items) :
    child.height < node.height := by
  induction node with
  | empty => simp [items] at h
  | item name' child' rest _ ih =>
    simp only [items, mem_cons, Prod.mk.injEq] at h
    rcases h with ⟨rfl, rfl⟩ | h
    · simp only [height]
      omega
    · have := ih h
      simp only [height]
      omega

variable {node : Node} {nodes : List Node}

theorem height_le_maxHeight (h : node ∈ nodes) : node.height ≤ maxHeight nodes := by
  induction nodes with
  | nil => simp at h
  | cons first rest ih =>
    rcases mem_cons.mp h with rfl | h
    · exact le_max_left _ _
    · exact (ih h).trans (le_max_right _ _)

theorem maxHeight_le {h : ℕ} (hnodes : ∀ node ∈ nodes, node.height ≤ h) : maxHeight nodes ≤ h := by
  induction nodes with
  | nil => exact Nat.zero_le h
  | cons first rest ih =>
    exact max_le (hnodes first mem_cons_self)
      (ih fun node hmem ↦ hnodes node (mem_cons_of_mem _ hmem))

theorem maxHeight_group_lt {group : Edge × List Node}
    (h : group ∈ groupItems (nodes.flatMap items)) : maxHeight group.2 < maxHeight nodes := by
  have hchild : ∀ child ∈ group.2, child.height < maxHeight nodes := by
    intro child hmem
    obtain ⟨node, hnode, hitem⟩ := mem_flatMap.mp (mem_of_mem_group h hmem)
    exact (height_lt_of_mem hitem).trans_le (height_le_maxHeight hnode)
  obtain ⟨child, hmem⟩ := exists_mem_of_ne_nil _ (groupItems_ne_nil _ _ h)
  have hpos : 0 < maxHeight nodes := (Nat.zero_le _).trans_lt (hchild child hmem)
  refine Nat.lt_of_le_pred hpos (maxHeight_le fun child hmem ↦ ?_)
  exact Nat.le_pred_of_lt (hchild child hmem)

def mergeNodes (nodes : List Node) : Node :=
  ofItems ((groupItems (nodes.flatMap items)).attach.map fun group ↦
    (group.val.1, mergeNodes group.val.2))
termination_by maxHeight nodes
decreasing_by exact maxHeight_group_lt group.property

/-- `merge` up to the recursion: a node with `merge_threshold` children gets the one child
`MERGED`. -/
def collapse (mergeThreshold : ℕ+) (node : Node) : Node :=
  if mergeThreshold ≤ node.len then item .merged (mergeNodes node.values) empty else node

theorem items_mergeNodes (nodes : List Node) : (mergeNodes nodes).items =
      (groupItems (nodes.flatMap items)).map fun group ↦ (group.1, mergeNodes group.2) := by
  rw [mergeNodes, items_ofItems]
  exact attach_map_val (f := fun group : Edge × List Node ↦ (group.1, mergeNodes group.2))

theorem height_le_of_items {h : ℕ} (hitems : ∀ entry ∈ node.items, entry.2.height < h) :
    node.height ≤ h := by
  induction node with
  | empty => exact Nat.zero_le h
  | item name child rest _ ih =>
    have hchild : child.height < h := hitems (name, child) mem_cons_self
    exact max_le hchild (ih fun entry hmem ↦ hitems entry (mem_cons_of_mem _ hmem))

theorem height_mergeNodes_le (nodes : List Node) : (mergeNodes nodes).height ≤ maxHeight nodes := by
  induction nodes using mergeNodes.induct with
  | case1 nodes ih =>
    refine height_le_of_items fun entry hmem ↦ ?_
    rw [items_mergeNodes] at hmem
    obtain ⟨group, hgroup, rfl⟩ := mem_map.mp hmem
    exact (ih ⟨group, hgroup⟩).trans_lt (maxHeight_group_lt hgroup)

theorem height_collapse_le (mergeThreshold : ℕ+) (node : Node) :
    (node.collapse mergeThreshold).height ≤ node.height := by
  by_cases h : (mergeThreshold : ℕ) ≤ node.len
  · rw [collapse, if_pos h]
    have hvalues : maxHeight node.values < node.height := by
      have hne : node.items ≠ [] := by
        intro hnil
        have hpos := mergeThreshold.pos
        simp only [len, hnil, length_nil] at h
        omega
      obtain ⟨⟨name, child⟩, hmem⟩ := exists_mem_of_ne_nil _ hne
      refine Nat.lt_of_le_pred ((Nat.zero_le _).trans_lt (height_lt_of_mem hmem)) ?_
      refine maxHeight_le fun value hvalue ↦ Nat.le_pred_of_lt ?_
      obtain ⟨⟨name', _⟩, hentry, rfl⟩ := mem_map.mp hvalue
      exact height_lt_of_mem hentry
    exact max_le ((height_mergeNodes_le node.values).trans_lt hvalues) (Nat.zero_le _)
  · rw [collapse, if_neg h]

def merge (mergeThreshold : ℕ+) (node : Node) : Node :=
  ofItems ((node.collapse mergeThreshold).items.attach.map fun entry ↦
    (entry.val.1, merge mergeThreshold entry.val.2))
termination_by node.height
decreasing_by
  exact (height_lt_of_mem entry.property).trans_le (height_collapse_le mergeThreshold node)

theorem items_merge (mergeThreshold : ℕ+) (node : Node) :
    (node.merge mergeThreshold).items = (node.collapse mergeThreshold).items.map fun entry ↦
      (entry.1, entry.2.merge mergeThreshold) := by
  rw [merge, items_ofItems]
  exact attach_map_val (f := fun entry : Edge × Node ↦ (entry.1, entry.2.merge mergeThreshold))

def Has : Node → List Edge → Prop
  | _, [] => True
  | node, edge :: path => ∃ child, (edge, child) ∈ node.items ∧ child.Has path

def UniqueKeys : Node → Prop
  | empty => True
  | item name child rest =>
    name ∉ rest.items.map Prod.fst ∧ child.UniqueKeys ∧ rest.UniqueKeys

theorem mem_paths_iff {ancestors path : List Edge} :
    path ∈ node.paths ancestors ↔ ∃ below, below ≠ [] ∧ path = ancestors ++ below ∧
      node.Has below := by
  induction node generalizing ancestors with
  | empty =>
    simp only [paths, not_mem_nil, false_iff, not_exists, not_and]
    intro below hne _ hhas
    obtain ⟨edge, rest, rfl⟩ := exists_cons_of_ne_nil hne
    obtain ⟨child, hmem, -⟩ := hhas
    simp [items] at hmem
  | item name child rest ihChild ihRest =>
    simp only [paths, mem_cons, mem_append, ihChild, ihRest]
    constructor
    · rintro (rfl | ⟨below, -, rfl, hhas⟩ | ⟨below, hne, rfl, hhas⟩)
      · exact ⟨[name], by simp, rfl, child, by simp [items], trivial⟩
      · exact ⟨name :: below, by simp, by simp, child, by simp [items], hhas⟩
      · refine ⟨below, hne, rfl, ?_⟩
        obtain ⟨edge, tail, rfl⟩ := exists_cons_of_ne_nil hne
        obtain ⟨child', hmem, hhas'⟩ := hhas
        exact ⟨child', mem_cons_of_mem _ hmem, hhas'⟩
    · rintro ⟨below, hne, rfl, hhas⟩
      obtain ⟨edge, tail, rfl⟩ := exists_cons_of_ne_nil hne
      obtain ⟨child', hmem, hhas'⟩ := hhas
      rcases mem_cons.mp hmem with heq | hmem
      · obtain ⟨rfl, rfl⟩ := Prod.mk.inj heq
        by_cases htail : tail = []
        · exact Or.inl (by rw [htail])
        · exact Or.inr (Or.inl ⟨tail, htail, by simp, hhas'⟩)
      · exact Or.inr (Or.inr ⟨edge :: tail, by simp, rfl, child', hmem, hhas'⟩)

theorem uniqueKeys_iff :
    node.UniqueKeys ↔ (node.items.map Prod.fst).Nodup ∧
      ∀ entry ∈ node.items, entry.2.UniqueKeys := by
  induction node with
  | empty => simp [UniqueKeys, items]
  | item name child rest _ ih =>
    simp only [UniqueKeys, ih, items, map_cons, nodup_cons, mem_cons, forall_eq_or_imp]
    rw [and_assoc]
    exact and_congr_right fun _ ↦ and_left_comm

theorem UniqueKeys.child_eq (h : node.UniqueKeys) {name : Edge} {child child' : Node}
    (hmem : (name, child) ∈ node.items) (hmem' : (name, child') ∈ node.items) : child = child' := by
  have hnodup := (uniqueKeys_iff.mp h).1
  exact (Prod.mk.inj (inj_on_of_nodup_map hnodup hmem hmem' rfl)).2

theorem nodup_paths (h : node.UniqueKeys) (ancestors : List Edge) :
    (node.paths ancestors).Nodup := by
  induction node generalizing ancestors with
  | empty => simp [paths]
  | item name child rest ihChild ihRest =>
    obtain ⟨hname, hchild, hrest⟩ := h
    have hfirst : ∀ below : List Edge, rest.Has below → below.head? ≠ some name := by
      intro below hhas hhead
      obtain ⟨tail, rfl⟩ := head?_eq_some_iff.mp hhead
      obtain ⟨child', hmem, -⟩ := hhas
      exact hname (mem_map.mpr ⟨_, hmem, rfl⟩)
    rw [paths, nodup_cons, mem_append, not_or]
    refine ⟨⟨?_, ?_⟩, (ihChild hchild _).append (ihRest hrest _) ?_⟩
    · rw [mem_paths_iff]
      rintro ⟨below, hne, heq, -⟩
      exact hne (by simpa using heq)
    · rw [mem_paths_iff]
      rintro ⟨below, -, heq, hhas⟩
      obtain rfl : [name] = below := by simpa using heq
      exact hfirst _ hhas rfl
    · intro path hpath hpath'
      obtain ⟨below, -, rfl, -⟩ := mem_paths_iff.mp hpath
      obtain ⟨below', -, heq, hhas⟩ := mem_paths_iff.mp hpath'
      obtain rfl : name :: below = below' := by simpa using heq
      exact hfirst _ hhas rfl

@[simp] theorem has_nil (node : Node) : node.Has [] := by
  trivial

variable {path : List Edge}

theorem has_item_iff {name edge : Edge} {child rest : Node} :
    (item name child rest).Has (edge :: path) ↔
      (edge = name ∧ child.Has path) ∨ rest.Has (edge :: path) := by
  simp only [Has, items, mem_cons, Prod.mk.injEq, or_and_right, exists_or, and_assoc,
    exists_and_left, exists_eq_left]

theorem not_has_empty (edge : Edge) (path : List Edge) : ¬empty.Has (edge :: path) := by
  rintro ⟨child, hmem, -⟩
  simp [items] at hmem

variable {change : Node → Node}

theorem mem_keys_setdefault {name edge : Edge} :
    edge ∈ (node.setdefault name change).items.map Prod.fst ↔
      edge = name ∨ edge ∈ node.items.map Prod.fst := by
  induction node with
  | empty => simp [setdefault, items]
  | item name' child rest _ ih =>
    by_cases h : name' = name
    · simp [setdefault, h, items]
    · simp only [setdefault, h, if_false, items, map_cons, mem_cons, ih]
      exact or_left_comm

theorem uniqueKeys_setdefault {name : Edge}
    (hchange : ∀ old, UniqueKeys old → (change old).UniqueKeys) (h : node.UniqueKeys) :
    (node.setdefault name change).UniqueKeys := by
  induction node with
  | empty => exact ⟨by simp [items], hchange empty trivial, trivial⟩
  | item name' child rest _ ih =>
    obtain ⟨hname, hchild, hrest⟩ := h
    by_cases hkey : name' = name
    · rw [setdefault, if_pos hkey]
      exact ⟨hname, hchange child hchild, hrest⟩
    · rw [setdefault, if_neg hkey]
      refine ⟨fun hmem ↦ ?_, hchild, ih hrest⟩
      rcases mem_keys_setdefault.mp hmem with heq | hmem
      · exact hkey heq
      · exact hname hmem

/-- Assumes: the change adds the paths `added` to a node. Under `setdefault` they are added below
the name. -/
theorem has_setdefault_iff {name edge : Edge} {added : List Edge → Prop}
    (hchange : ∀ old path, (change old).Has path ↔ old.Has path ∨ added path)
    :
    (node.setdefault name change).Has (edge :: path) ↔
      node.Has (edge :: path) ∨ (edge = name ∧ (path = [] ∨ added path)) := by
  have hempty : empty.Has path ↔ path = [] := by
    cases path with
    | nil => simp
    | cons first tail => simp [not_has_empty]
  induction node with
  | empty =>
    rw [setdefault, has_item_iff, hchange, hempty]
    simp [not_has_empty]
  | item name' child rest _ ih =>
    by_cases hkey : name' = name
    · subst hkey
      rw [setdefault, if_pos rfl, has_item_iff, has_item_iff, hchange]
      by_cases hpath : path = []
      · subst hpath
        simp only [has_nil, true_or, and_true]
        exact (or_iff_left_of_imp Or.inl).symm
      · simp only [hpath, false_or]
        rw [and_or_left]
        exact or_right_comm
    · rw [setdefault, if_neg hkey, has_item_iff, has_item_iff, or_assoc]
      exact or_congr_right ih

theorem uniqueKeys_insert (parts : List Str) (h : node.UniqueKeys) :
    (node.insert parts).UniqueKeys := by
  induction parts generalizing node with
  | nil => exact h
  | cons part rest ih => exact uniqueKeys_setdefault (fun old hold ↦ ih hold) h

theorem has_insert_iff {parts : List Str} :
    (node.insert parts).Has path ↔ node.Has path ∨ path <+: parts.map Edge.name := by
  induction parts generalizing node path with
  | nil =>
    cases path with
    | nil => simp
    | cons edge tail => simp [insert]
  | cons part rest ih =>
    cases path with
    | nil => simp
    | cons edge tail =>
      rw [insert, has_setdefault_iff (fun old path ↦ ih), map_cons, cons_prefix_cons]
      by_cases htail : tail = []
      · subst htail
        simp
      · simp [htail]

theorem has_mergeNodes_iff :
    (mergeNodes nodes).Has path ↔ path = [] ∨ ∃ node ∈ nodes, node.Has path := by
  induction path generalizing nodes with
  | nil => simp
  | cons edge tail ih =>
    have hchild : (mergeNodes nodes).Has (edge :: tail) ↔
        ∃ children, (edge, children) ∈ groupItems (nodes.flatMap items) ∧
          (mergeNodes children).Has tail := by
      simp only [Has, items_mergeNodes, mem_map, Prod.mk.injEq]
      constructor
      · rintro ⟨child, ⟨group, hgroup, rfl, rfl⟩, hhas⟩
        exact ⟨group.2, hgroup, hhas⟩
      · rintro ⟨children, hgroup, hhas⟩
        exact ⟨_, ⟨_, hgroup, rfl, rfl⟩, hhas⟩
    rw [hchild]
    simp only [ih, cons_ne_nil, false_or]
    constructor
    · rintro ⟨children, hgroup, hpath⟩
      obtain ⟨child, hmem, hhas⟩ : ∃ child ∈ children, child.Has tail := by
        rcases hpath with rfl | hhas
        · obtain ⟨child, hmem⟩ := exists_mem_of_ne_nil _ (groupItems_ne_nil _ _ hgroup)
          exact ⟨child, hmem, has_nil child⟩
        · exact hhas
      obtain ⟨node, hnode, hitem⟩ := mem_flatMap.mp (mem_of_mem_group hgroup hmem)
      exact ⟨node, hnode, child, hitem, hhas⟩
    · rintro ⟨node, hnode, child, hitem, hhas⟩
      obtain ⟨children, hgroup, hmem⟩ :=
        (mem_groupItems_iff _ edge child).mpr (mem_flatMap.mpr ⟨node, hnode, hitem⟩)
      exact ⟨children, hgroup, Or.inr ⟨child, hmem, hhas⟩⟩

theorem uniqueKeys_mergeNodes (nodes : List Node) : (mergeNodes nodes).UniqueKeys := by
  induction nodes using mergeNodes.induct with
  | case1 nodes ih =>
    refine uniqueKeys_iff.mpr ⟨?_, ?_⟩
    · rw [items_mergeNodes, map_map]
      exact nodup_keys_groupItems _
    · intro entry hmem
      rw [items_mergeNodes] at hmem
      obtain ⟨group, hgroup, rfl⟩ := mem_map.mp hmem
      exact ih ⟨group, hgroup⟩

theorem uniqueKeys_collapse (mergeThreshold : ℕ+) (h : node.UniqueKeys) :
    (node.collapse mergeThreshold).UniqueKeys := by
  by_cases hlen : (mergeThreshold : ℕ) ≤ node.len
  · rw [collapse, if_pos hlen]
    exact ⟨by simp [items], uniqueKeys_mergeNodes _, trivial⟩
  · rw [collapse, if_neg hlen]
    exact h

theorem uniqueKeys_merge (mergeThreshold : ℕ+) (h : node.UniqueKeys) :
    (node.merge mergeThreshold).UniqueKeys := by
  induction node using merge.induct mergeThreshold with
  | case1 node ih =>
    obtain ⟨hkeys, hchildren⟩ := uniqueKeys_iff.mp (uniqueKeys_collapse mergeThreshold h)
    refine uniqueKeys_iff.mpr ⟨?_, ?_⟩
    · rw [items_merge, map_map]
      exact hkeys
    · intro entry hmem
      rw [items_merge] at hmem
      obtain ⟨entry', hmem', rfl⟩ := mem_map.mp hmem
      exact ih ⟨entry', hmem'⟩ (hchildren entry' hmem')

theorem has_merge_cons_iff (mergeThreshold : ℕ+) {edge : Edge} :
    (node.merge mergeThreshold).Has (edge :: path) ↔
      ∃ child, (edge, child) ∈ (node.collapse mergeThreshold).items ∧
        (child.merge mergeThreshold).Has path := by
  simp only [Has, items_merge, mem_map, Prod.mk.injEq]
  constructor
  · rintro ⟨child, ⟨entry, hentry, rfl, rfl⟩, hhas⟩
    exact ⟨entry.2, hentry, hhas⟩
  · rintro ⟨child, hmem, hhas⟩
    exact ⟨_, ⟨_, hmem, rfl, rfl⟩, hhas⟩

end Node

structure TreeClusterer where
  mergeThreshold : ℕ+
  tree : Node

/-- `TreeClusterer.__init__`. -/
def TreeClusterer.new (mergeThreshold : ℕ+) : TreeClusterer := ⟨mergeThreshold, .empty⟩

def TreeClusterer.addInput (clusterer : TreeClusterer) (strings : List Str) : TreeClusterer :=
  { clusterer with
    tree := strings.foldl (fun tree string ↦ tree.insert (split maxDepth string)) clusterer.tree }

/-- How `_build_rule` writes an edge. -/
def Edge.write : Edge → Str
  | .name part => part
  | .merged => ['*']

def buildRule (path : List Edge) : Str :=
  [sep].intercalate (path.map Edge.write) ++ [sep, '*', '*']

/-- The paths that `_extract_rules` makes rules of, one for every merge. -/
def TreeClusterer.rulePaths (clusterer : TreeClusterer) : List (List Edge) :=
  ((clusterer.tree.merge clusterer.mergeThreshold).paths []).filter
    fun path ↦ path.getLast? = some .merged

def TreeClusterer.extractRules (clusterer : TreeClusterer) : List Str :=
  clusterer.rulePaths.map buildRule

end Sentry.TransactionClusterer
