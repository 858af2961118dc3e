import Mathlib.Algebra.BigOperators.Group.List.Basic
import Mathlib.Algebra.GroupWithZero.Nat
import Mathlib.Data.Char
import Mathlib.Data.List.Induction
import Mathlib.Data.List.Lex
import Mathlib.Data.List.Sort

/-!
# Hashes of custom rules

`models/dynamicsampling.py`. The text that is hashed does not depend on the order of list elements
and of keys (`getRuleHash_eq_of_sameUpToOrder`). But nothing in it is quoted, so another rule has
the same hash for every rule except for those without projects whose condition is a string that
looks like nothing else (`identified_iff`).
-/

namespace Sentry.DynamicSampling.RuleHash

open List

abbrev Text := List Char

/-- A JSON value, the members of an object in the order of the dictionary. -/
inductive Json (F : Type)
  | null
  | bool (value : Bool)
  | int (value : ℤ)
  | float (value : F)
  | string (text : Text)
  | list (items : List (Json F))
  | object (members : List (Text × Json F))

variable {F : Type}

namespace Json

/-- The keys of a dictionary are different. -/
inductive Valid : Json F → Prop
  | null : Valid null
  | bool (value : Bool) : Valid (bool value)
  | int (value : ℤ) : Valid (int value)
  | float (value : F) : Valid (float value)
  | string (text : Text) : Valid (string text)
  | list {items : List (Json F)} : (∀ item ∈ items, Valid item) → Valid (list items)
  | object {members : List (Text × Json F)} : (members.map Prod.fst).Nodup →
      (∀ member ∈ members, Valid member.2) → Valid (object members)

/-- The same but for the order of list elements and object keys, here or further inside. -/
inductive SameUpToOrder : Json F → Json F → Prop
  | refl (a : Json F) : SameUpToOrder a a
  | trans {a b c : Json F} : SameUpToOrder a b → SameUpToOrder b c → SameUpToOrder a c
  | list {items items' : List (Json F)} : items.Perm items' →
      SameUpToOrder (list items) (list items')
  | object {members members' : List (Text × Json F)} : members.Perm members' →
      SameUpToOrder (object members) (object members')
  | item (before after : List (Json F)) {a b : Json F} : SameUpToOrder a b →
      SameUpToOrder (list (before ++ a :: after)) (list (before ++ b :: after))
  | member (before after : List (Text × Json F)) (key : Text) {a b : Json F} :
      SameUpToOrder a b →
      SameUpToOrder (object (before ++ (key, a) :: after)) (object (before ++ (key, b) :: after))

end Json

/-- `str` of an integer. -/
def intText (value : ℤ) : Text := (toString value).toList

def dashed (texts : List Text) : Text := texts.flatMap fun text ↦ text ++ ['-']

variable (floatText : F → Text)

mutual

/-- `to_order_independent_string`, with `str` of a float as a parameter. -/
def toOrderIndependentString : Json F → Text
  | .null => "None".toList
  | .bool true => "True".toList
  | .bool false => "False".toList
  | .int value => intText value
  | .float value => floatText value
  | .string text => text
  | .list items => dashed ((itemTexts items).insertionSort (· ≤ ·))
  | .object members =>
    dashed (((memberTexts members).insertionSort fun member other ↦ member.1 ≤ other.1).map
      fun member ↦ member.1 ++ ':' :: member.2)

def itemTexts : List (Json F) → List Text
  | [] => []
  | item :: rest => toOrderIndependentString item :: itemTexts rest

def memberTexts : List (Text × Json F) → List (Text × Text)
  | [] => []
  | (key, value) :: rest => (key, toOrderIndependentString value) :: memberTexts rest

end

def projectText (projectIds : List ℤ) : Text :=
  toOrderIndependentString floatText (.list (projectIds.map .int))

def ruleText (condition : Json F) (projectIds : List ℤ) : Text :=
  toOrderIndependentString floatText condition ++ '-' :: projectText floatText projectIds

/-- `get_rule_hash` -/
def getRuleHash {Digest : Type} (sha1 : Text → Digest) (condition : Json F)
    (projectIds : List ℤ) : Digest :=
  sha1 (ruleText floatText condition projectIds)

variable {floatText}

theorem itemTexts_eq_map (items : List (Json F)) :
    itemTexts floatText items = items.map (toOrderIndependentString floatText) := by
  induction items with
  | nil => rfl
  | cons item rest ih => rw [itemTexts, ih, map_cons]

theorem memberTexts_eq_map (members : List (Text × Json F)) :
    memberTexts floatText members =
      members.map fun member ↦ (member.1, toOrderIndependentString floatText member.2) := by
  induction members with
  | nil => rfl
  | cons member rest ih => rw [memberTexts, ih, map_cons]

theorem insertionSort_eq_of_perm {texts texts' : List Text} (h : texts.Perm texts') :
    texts.insertionSort (· ≤ ·) = texts'.insertionSort (· ≤ ·) := by
  have hperm := (perm_insertionSort (· ≤ ·) texts).trans
    (h.trans (perm_insertionSort (· ≤ ·) texts').symm)
  exact hperm.eq_of_pairwise' (pairwise_insertionSort _ _) (pairwise_insertionSort _ _)

instance : Std.Total fun member other : Text × Text ↦ member.1 ≤ other.1 :=
  ⟨fun member other ↦ le_total member.1 other.1⟩

instance : IsTrans (Text × Text) fun member other ↦ member.1 ≤ other.1 :=
  ⟨fun _ _ _ h h' ↦ le_trans h h'⟩

theorem insertionSort_key_eq_of_perm {members members' : List (Text × Text)}
    (hnodup : (members.map Prod.fst).Nodup) (h : members.Perm members') :
    members.insertionSort (fun member other ↦ member.1 ≤ other.1) =
      members'.insertionSort fun member other ↦ member.1 ≤ other.1 := by
  have hperm := perm_insertionSort (fun member other : Text × Text ↦ member.1 ≤ other.1)
  refine ((hperm members).trans (h.trans (hperm members').symm)).eq_of_pairwise ?_
    (pairwise_insertionSort _ _) (pairwise_insertionSort _ _)
  intro a b ha hb hab hba
  have hmem := (hperm members).mem_iff.mp ha
  have hmem' := h.mem_iff.mpr ((hperm members').mem_iff.mp hb)
  exact inj_on_of_nodup_map hnodup hmem hmem' (le_antisymm hab hba)

theorem text_list_of_perm {items items' : List (Json F)}
    (h : (items.map (toOrderIndependentString floatText)).Perm
      (items'.map (toOrderIndependentString floatText))) :
    toOrderIndependentString floatText (.list items) =
      toOrderIndependentString floatText (.list items') := by
  rw [toOrderIndependentString, toOrderIndependentString, itemTexts_eq_map, itemTexts_eq_map,
    insertionSort_eq_of_perm h]

theorem text_object_of_perm {members members' : List (Text × Json F)}
    (hnodup : (members.map Prod.fst).Nodup)
    (h : (members.map fun member ↦ (member.1, toOrderIndependentString floatText member.2)).Perm
      (members'.map fun member ↦ (member.1, toOrderIndependentString floatText member.2))) :
    toOrderIndependentString floatText (.object members) =
      toOrderIndependentString floatText (.object members') := by
  rw [toOrderIndependentString, toOrderIndependentString, memberTexts_eq_map, memberTexts_eq_map,
    insertionSort_key_eq_of_perm _ h]
  rwa [map_map]

theorem Json.SameUpToOrder.text_eq {a b : Json F} (h : a.SameUpToOrder b) (ha : a.Valid) :
    b.Valid ∧ toOrderIndependentString floatText a = toOrderIndependentString floatText b := by
  induction h with
  | refl a => exact ⟨ha, rfl⟩
  | trans _ _ ih ih' =>
    obtain ⟨hb, heq⟩ := ih ha
    obtain ⟨hc, heq'⟩ := ih' hb
    exact ⟨hc, heq.trans heq'⟩
  | list hperm =>
    cases ha with
    | list hitems =>
      exact ⟨.list fun item hitem ↦ hitems item (hperm.mem_iff.mpr hitem),
        text_list_of_perm (hperm.map _)⟩
  | object hperm =>
    cases ha with
    | object hnodup hmembers =>
      exact ⟨.object ((hperm.map _).nodup_iff.mp hnodup) fun member hmember ↦
        hmembers member (hperm.mem_iff.mpr hmember), text_object_of_perm hnodup (hperm.map _)⟩
  | item before after _ ih =>
    cases ha with
    | list hitems =>
      rw [forall_mem_append, forall_mem_cons] at hitems
      obtain ⟨hb, heq⟩ := ih hitems.2.1
      refine ⟨.list ?_, text_list_of_perm (by simp [heq])⟩
      rw [forall_mem_append, forall_mem_cons]
      exact ⟨hitems.1, hb, hitems.2.2⟩
  | member before after key _ ih =>
    cases ha with
    | object hnodup hmembers =>
      rw [forall_mem_append, forall_mem_cons] at hmembers
      obtain ⟨hb, heq⟩ := ih hmembers.2.1
      refine ⟨.object (by simpa using hnodup) ?_, text_object_of_perm hnodup (by simp [heq])⟩
      rw [forall_mem_append, forall_mem_cons]
      exact ⟨hmembers.1, hb, hmembers.2.2⟩

theorem getRuleHash_eq_of_sameUpToOrder {Digest : Type} (sha1 : Text → Digest)
    {condition condition' : Json F} {projectIds projectIds' : List ℤ} (hvalid : condition.Valid)
    (h : condition.SameUpToOrder condition') (hprojects : projectIds.Perm projectIds') :
    getRuleHash floatText sha1 condition projectIds =
      getRuleHash floatText sha1 condition' projectIds' := by
  rw [getRuleHash, getRuleHash, ruleText, ruleText, (h.text_eq hvalid).2,
    projectText, text_list_of_perm ((hprojects.map _).map _), projectText]

theorem Json.SameUpToOrder.eq_of_string {a b : Json F} (h : a.SameUpToOrder b) {text : Text}
    (ha : a = .string text ∨ b = .string text) : a = b := by
  induction h with
  | refl a => rfl
  | trans _ _ ih ih' =>
    rcases ha with ha | hc
    · obtain rfl := ih (.inl ha)
      exact ih' (.inl ha)
    · obtain rfl := ih' (.inr hc)
      exact ih (.inr hc)
  | list | object | item | member => rcases ha with ha | ha <;> nomatch ha

/-- A text that is nothing but a string: not that of another scalar, of a list or of an object, and
without a project at its end. -/
structure OnlyString (floatText : F → Text) (text : Text) : Prop where
  ne_scalar : text ∉ ["None".toList, "True".toList, "False".toList]
  ne_int : ∀ value, text ≠ intText value
  ne_float : ∀ value, text ≠ floatText value
  ne_nil : text ≠ []
  no_dash : text.getLast? ≠ some '-'
  no_project : ∀ before projectId, text ≠ before ++ '-' :: intText projectId

theorem dashed_append (texts : List Text) (text : Text) :
    dashed (texts ++ [text]) = dashed texts ++ (text ++ ['-']) := by
  simp [dashed]

theorem dashed_cases (texts : List Text) :
    dashed texts = [] ∨ ∃ text, dashed texts = text ++ ['-'] := by
  induction texts using List.reverseRecOn with
  | nil => exact .inl rfl
  | append_singleton texts text _ =>
    right
    exact ⟨dashed texts ++ text, by rw [dashed_append, append_assoc]⟩

theorem projectText_eq (projectIds : List ℤ) : projectText floatText projectIds =
    dashed ((projectIds.map intText).insertionSort (· ≤ ·)) := by
  rw [projectText, toOrderIndependentString, itemTexts_eq_map, map_map]
  rfl

theorem exists_projectText {projectIds : List ℤ} (h : projectIds ≠ []) :
    ∃ texts projectId, projectText floatText projectIds =
      dashed texts ++ (intText projectId ++ ['-']) := by
  have hne : (projectIds.map intText).insertionSort (· ≤ ·) ≠ [] := by
    rw [Ne, ← length_eq_zero_iff, length_insertionSort, length_map, length_eq_zero_iff]
    exact h
  have hmem := (mem_insertionSort _).mp (getLast_mem hne)
  obtain ⟨projectId, -, hlast⟩ := List.mem_map.mp hmem
  refine ⟨((projectIds.map intText).insertionSort (· ≤ ·)).dropLast, projectId, ?_⟩
  rw [projectText_eq, hlast, ← dashed_append, dropLast_append_getLast]

theorem projectText_singleton (projectId : ℤ) :
    projectText floatText [projectId] = intText projectId ++ ['-'] := by
  rw [projectText_eq]
  simp [dashed]

theorem projectText_nil : projectText floatText [] = [] := rfl

/-- The hash identifies a rule: the rules with the same hash are those with the same condition up to
order and the same projects up to order. -/
def Identified {Digest : Type} (floatText : F → Text) (sha1 : Text → Digest) (condition : Json F)
    (projectIds : List ℤ) : Prop :=
  ∀ (condition' : Json F) (projectIds' : List ℤ), condition'.Valid →
    (getRuleHash floatText sha1 condition projectIds =
        getRuleHash floatText sha1 condition' projectIds' ↔
      condition.SameUpToOrder condition' ∧ projectIds.Perm projectIds')

section Identified

variable {Digest : Type} {sha1 : Text → Digest} {condition : Json F} {projectIds : List ℤ}

section

variable (h : Identified floatText sha1 condition projectIds)

include h

theorem Identified.same {condition' : Json F} {projectIds' : List ℤ} (hvalid : condition'.Valid)
    (htext : ruleText floatText condition projectIds = ruleText floatText condition' projectIds') :
    condition.SameUpToOrder condition' ∧ projectIds.Perm projectIds' :=
  (h condition' projectIds' hvalid).mp (congrArg sha1 htext)

theorem Identified.projects_eq_nil : projectIds = [] := by
  by_contra hne
  obtain ⟨texts, projectId, hprojects⟩ := @exists_projectText _ floatText _ hne
  have htext : ruleText floatText condition projectIds = ruleText floatText (.string
      (toOrderIndependentString floatText condition ++ '-' :: (dashed texts ++ intText projectId)))
      [] := by
    rw [ruleText, ruleText, hprojects, projectText_nil, toOrderIndependentString]
    simp
  exact hne (List.Perm.eq_nil (h.same (.string _) htext).2)

theorem Identified.eq_string :
    condition = .string (toOrderIndependentString floatText condition) := by
  have htext : ruleText floatText condition projectIds = ruleText floatText
      (.string (toOrderIndependentString floatText condition)) projectIds := rfl
  exact (h.same (.string _) htext).1.eq_of_string (.inr rfl)

end

theorem Identified.onlyString {text : Text} (h : Identified floatText sha1 (.string text) []) :
    OnlyString floatText text := by
  have hsame {condition' : Json F} (hvalid : condition'.Valid)
      (htext : text = toOrderIndependentString floatText condition') :
      .string text = condition' := by
    have hrule : ruleText floatText (.string text) [] = ruleText floatText condition' [] := by
      rw [ruleText, ruleText, ← htext, toOrderIndependentString]
    exact (h.same hvalid hrule).1.eq_of_string (.inl rfl)
  constructor
  · intro hscalar
    rw [mem_cons, mem_cons, mem_singleton] at hscalar
    rcases hscalar with hnone | htrue | hfalse
    · exact nomatch hsame .null hnone
    · exact nomatch hsame (.bool true) htrue
    · exact nomatch hsame (.bool false) hfalse
  · exact fun value hint ↦ nomatch hsame (.int value) hint
  · exact fun value hfloat ↦ nomatch hsame (.float value) hfloat
  · exact fun hnil ↦ nomatch hsame (.list fun _ hitem ↦ absurd hitem not_mem_nil) hnil
  · intro hdash
    obtain ⟨rest, rfl⟩ := getLast?_eq_some_iff.mp hdash
    have hvalid : (Json.list [.string rest] : Json F).Valid :=
      .list fun item hitem ↦ mem_singleton.mp hitem ▸ .string rest
    exact nomatch hsame hvalid (append_nil _).symm
  · rintro before projectId rfl
    have hrule : ruleText floatText (.string (before ++ '-' :: intText projectId)) [] =
        ruleText floatText (.string before) [projectId] := by
      rw [ruleText, ruleText, projectText_singleton, projectText_nil, toOrderIndependentString,
        toOrderIndependentString]
      simp
    have hperm := (h.same (.string before) hrule).2
    exact cons_ne_nil _ _ hperm.symm.eq_nil

theorem OnlyString.eq_string {text : Text} (h : OnlyString floatText text) {condition : Json F}
    (htext : text = toOrderIndependentString floatText condition) :
    condition = .string text := by
  have hdashed (hcases : text = [] ∨ ∃ rest, text = rest ++ ['-']) : False := by
    rcases hcases with hnil | ⟨rest, rfl⟩
    · exact h.ne_nil hnil
    · exact h.no_dash getLast?_concat
  cases condition with
  | null => exact absurd (mem_cons.mpr (.inl htext)) h.ne_scalar
  | bool value =>
    cases value with
    | true | false => exact absurd (by simp [htext, toOrderIndependentString]) h.ne_scalar
  | int value => exact absurd htext (h.ne_int value)
  | float value => exact absurd htext (h.ne_float value)
  | string text' => exact congrArg Json.string htext.symm
  | list | object => exact (hdashed (htext ▸ dashed_cases _)).elim

theorem OnlyString.identified_of_hash (hsha1 : Function.Injective sha1) {text : Text}
    (h : OnlyString floatText text) : Identified floatText sha1 (.string text) [] := by
  intro condition' projectIds' hvalid
  constructor
  · intro hhash
    have htext := hsha1 hhash
    rw [ruleText, ruleText, toOrderIndependentString, projectText_nil] at htext
    by_cases hprojects : projectIds' = []
    · rw [hprojects, projectText_nil] at htext
      rw [hprojects, h.eq_string (append_cancel_right htext)]
      exact ⟨.refl _, .refl _⟩
    · obtain ⟨texts, projectId, hlast⟩ := @exists_projectText _ floatText _ hprojects
      have hsplit : text = toOrderIndependentString floatText condition' ++
          '-' :: (dashed texts ++ intText projectId) := by
        refine @append_cancel_right _ _ ['-'] _ ?_
        rw [htext, hlast]
        simp
      rcases dashed_cases texts with hnil | ⟨rest, hrest⟩
      · rw [hnil, nil_append] at hsplit
        exact absurd hsplit (h.no_project _ projectId)
      · refine absurd ?_ (h.no_project
          (toOrderIndependentString floatText condition' ++ '-' :: rest) projectId)
        rw [hsplit, hrest]
        simp
  · rintro ⟨hsame, hperm⟩
    exact getRuleHash_eq_of_sameUpToOrder sha1 (.string text) hsame hperm

end Identified

/-- The hash identifies a rule if and only if it has no projects and its condition is a string that
looks like nothing else. -/
theorem identified_iff {Digest : Type} {sha1 : Text → Digest} (hsha1 : Function.Injective sha1)
    (floatText : F → Text) (condition : Json F) (projectIds : List ℤ) :
    Identified floatText sha1 condition projectIds ↔
      projectIds = [] ∧ ∃ text, condition = .string text ∧ OnlyString floatText text := by
  constructor
  · intro h
    obtain rfl := h.projects_eq_nil
    refine ⟨rfl, toOrderIndependentString floatText condition, h.eq_string, ?_⟩
    rw [h.eq_string] at h
    exact h.onlyString
  · rintro ⟨rfl, text, rfl, htext⟩
    exact htext.identified_of_hash hsha1

namespace Json

mutual

def listCount : Json F → ℕ
  | .list items => itemCount items + 1
  | .object members => memberCount members
  | _ => 0

def itemCount : List (Json F) → ℕ
  | [] => 0
  | item :: rest => listCount item + itemCount rest

def memberCount : List (Text × Json F) → ℕ
  | [] => 0
  | (_, value) :: rest => listCount value + memberCount rest

end

theorem itemCount_eq (items : List (Json F)) : itemCount items = (items.map listCount).sum := by
  induction items with
  | nil => rfl
  | cons item rest ih => rw [itemCount, ih, map_cons, sum_cons]

theorem memberCount_eq (members : List (Text × Json F)) :
    memberCount members = (members.map fun member ↦ member.2.listCount).sum := by
  induction members with
  | nil => rfl
  | cons member rest ih => rw [memberCount, ih, map_cons, sum_cons]

theorem SameUpToOrder.listCount_eq {a b : Json F} (h : a.SameUpToOrder b) :
    a.listCount = b.listCount := by
  induction h with
  | refl a => rfl
  | trans _ _ ih ih' => exact ih.trans ih'
  | list hperm => rw [listCount, listCount, itemCount_eq, itemCount_eq, (hperm.map _).sum_eq]
  | object hperm => rw [listCount, listCount, memberCount_eq, memberCount_eq, (hperm.map _).sum_eq]
  | item before after _ ih => simp [listCount, itemCount_eq, ih]
  | member before after key _ ih => simp [listCount, memberCount_eq, ih]

end Json

/-- The condition `event.environment:` with a value. -/
def environmentIs (value : Json Text) : Json Text :=
  .object [("op".toList, .string "eq".toList), ("name".toList, .string "event.environment".toList),
    ("value".toList, value)]

/-- One of the environments `a` and `b`, or the environment `a-b-`. -/
theorem environments_collide :
    getRuleHash id id (environmentIs (.list [.string ['a'], .string ['b']])) [1] =
        getRuleHash id id (environmentIs (.string "a-b-".toList)) [1] ∧
      ¬ (environmentIs (.list [.string ['a'], .string ['b']])).SameUpToOrder
        (environmentIs (.string "a-b-".toList)) := by
  refine ⟨by decide, fun hsame ↦ ?_⟩
  exact absurd hsame.listCount_eq (by decide)

theorem identified_iff_environment :
    Identified id (id : Text → Text) (.string "prod".toList) [] ↔
      ([] : List ℤ) = [] ∧ ∃ text, (.string "prod".toList : Json Text) = .string text ∧
        OnlyString id text :=
  identified_iff Function.injective_id id (.string "prod".toList) []

end Sentry.DynamicSampling.RuleHash
