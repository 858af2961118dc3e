import Sentry.Library.Dictionary
import Sentry.Library.PythonRepr
import Mathlib.Data.Finset.Sort
import Mathlib.Data.List.Lex
import Mathlib.Data.String.Basic

/-!
# The rollout of features

A feature is a list of segments, and a segment is a list of conditions on an evaluation context and
a rollout from `0` to `100`. The first segment whose conditions all hold decides
(`Feature.matches_of_first`). The buckets of a rollout `r` between `1` and `99` are `0` to `r`, so
that `r + 1` of the hundred buckets are granted (`card_grantedBuckets`); only where one of these is
never taken are there `r` buckets that decide (`rollout_iff`).
-/

namespace Sentry.Flagpole

open Library List

abbrev Text := List Char

/-! ### Values -/

/-- A value that can be an element of a set; a float by the number that it stands for. -/
inductive Scalar
  | none
  | bool (b : Bool)
  | int (i : ℤ)
  | float (q : ℚ)
  | str (text : Text)
  deriving DecidableEq

/-- A property of a context, or the value of a condition. -/
inductive Value
  | scalar (s : Scalar)
  | list (elements : List Scalar)
  | dict (items : List (Text × Scalar))
  deriving DecidableEq

/-- `type` -/
inductive PyType
  | noneType
  | bool
  | int
  | float
  | str
  | list
  | dict
  deriving DecidableEq

def Value.type : Value → PyType
  | .scalar .none => .noneType
  | .scalar (.bool _) => .bool
  | .scalar (.int _) => .int
  | .scalar (.float _) => .float
  | .scalar (.str _) => .str
  | .list _ => .list
  | .dict _ => .dict

/-- `get_type_name` -/
def getTypeName (value : Value) : Text :=
  match value.type with
  | .noneType => "NoneType".toList
  | .bool => "bool".toList
  | .int => "int".toList
  | .float => "float".toList
  | .str => "str".toList
  | .list => "list".toList
  | .dict => "dict".toList

/-- `isinstance(value, cls)`; a `bool` is an `int` too. -/
def Value.isInstance (value : Value) (cls : PyType) : Prop :=
  value.type = cls ∨ value.type = .bool ∧ cls = .int

instance (value : Value) (cls : PyType) : Decidable (value.isInstance cls) :=
  inferInstanceAs (Decidable (_ ∨ _))

def Scalar.number? : Scalar → Option ℚ
  | .bool b => some (if b then 1 else 0)
  | .int i => some i
  | .float q => some q
  | .none => Option.none
  | .str _ => Option.none

/-- `==` of scalars: numbers of different types are compared by what they stand for. -/
def Scalar.eq (a b : Scalar) : Bool :=
  match a.number?, b.number? with
  | some x, some y => x = y
  | _, _ => a = b

/-- `==` -/
def Value.eq : Value → Value → Bool
  | .scalar a, .scalar b => a.eq b
  | .list a, .list b => a.isEqv b Scalar.eq
  | .dict a, .dict b =>
    a.length = b.length ∧ ∀ item ∈ a, ((getItem b item.1).map item.2.eq).getD false
  | _, _ => false

/-- What the values and contexts use of the standard library: `str.lower`, `repr` of floats, the
characters that `repr` leaves as they are, and the digest of a text that is encoded in UTF-8. -/
structure Builtins where
  lower : Text → Text
  reprFloat : ℚ → Text
  printable : Char → Bool
  sha1 : Text → List UInt8

variable (py : Builtins)

def Scalar.repr : Scalar → Text
  | .none => "None".toList
  | .bool true => "True".toList
  | .bool false => "False".toList
  | .int i => (toString i).toList
  | .float q => py.reprFloat q
  | .str text => Python.reprStr py.printable text

/-- `str` -/
def Value.str : Value → Text
  | .scalar (.str text) => text
  | .scalar s => s.repr py
  | .list elements => '[' :: (", ".toList).intercalate (elements.map (Scalar.repr py)) ++ [']']
  | .dict items =>
    '\x7b' :: (", ".toList).intercalate (items.map fun item ↦
      Python.reprStr py.printable item.1 ++ ": ".toList ++ item.2.repr py) ++ ['\x7d']

/-! ### Contexts -/

/-- `EvaluationContext`, by what it is made of. -/
structure EvaluationContext where
  data : List (Text × Value)
  nodup_keys : (data.map Prod.fst).Nodup
  givenFields : Option (Finset Text)

namespace EvaluationContext

variable (context : EvaluationContext)

def keys : Finset Text := (context.data.map Prod.fst).toFinset

/-- `__set_identity_fields` -/
def identityFields : Finset Text :=
  let trimmedIdFields := (context.givenFields.getD ∅).filter (· ∈ context.keys)
  if trimmedIdFields = ∅ then context.keys else trimmedIdFields

/-- `get`; the value of a missing key is `None`. -/
def get (key : Text) : Value := (getItem context.data key).getD (.scalar .none)

/-- `int.from_bytes(digest, byteorder="big")` -/
def fromBytes (digest : List UInt8) : ℕ := digest.foldl (fun n byte ↦ 256 * n + byte.toNat) 0

/-- `__generate_id` -/
def id : ℕ :=
  let vector := context.identityFields.sort.flatMap fun key ↦ [key, (context.get key).str py]
  fromBytes (py.sha1 ([':'].intercalate vector))

/-- The bucket of a context, of the hundred ones. -/
def bucket : ℕ := context.id py % 100

def SameIdentity (other : EvaluationContext) : Prop :=
  context.identityFields = other.identityFields ∧
    ∀ key ∈ context.identityFields, context.get key = other.get key

variable {context} {py} {other : EvaluationContext}

theorem SameIdentity.id_eq (h : context.SameIdentity other) : context.id py = other.id py := by
  have hvalues (key : Text) (hkey : key ∈ context.identityFields.sort) :
      [key, (context.get key).str py] = [key, (other.get key).str py] := by
    rw [h.2 key ((Finset.mem_sort _).mp hkey)]
  show fromBytes (py.sha1 _) = fromBytes (py.sha1 _)
  rw [flatMap_congr hvalues, h.1]

end EvaluationContext

/-! ### Conditions -/

/-- The exceptions of conditions. A set has no lists and dictionaries, and `TypeError` is raised
where one is looked for in it. -/
inductive Error
  | conditionTypeMismatch (message : Text)
  | typeError
  deriving DecidableEq

/-- `ConditionOperatorKind` -/
inductive ConditionOperatorKind
  | in
  | notIn
  | contains
  | notContains
  | equals
  | notEquals
  deriving DecidableEq

/-- `ConditionBase`, whose class is that of its operator in `OPERATOR_LOOKUP`. -/
structure Condition where
  property : Text
  value : Value
  operator : ConditionOperatorKind

def Scalar.lowered : Scalar → Scalar
  | .str text => .str (py.lower text)
  | s => s

/-- `create_case_insensitive_set_from_list` -/
def createCaseInsensitiveSetFromList (values : List Scalar) : List Scalar :=
  values.map (Scalar.lowered py)

def inSet (s : Scalar) (set : List Scalar) : Bool := set.any s.eq

namespace Condition

variable (c : Condition)

/-- `_evaluate_in` -/
def evaluateIn (conditionProperty : Value) (segmentName : Text) : Except Error Bool :=
  match c.value with
  | .list values =>
    match conditionProperty with
    | .scalar s => return inSet (s.lowered py) (createCaseInsensitiveSetFromList py values)
    | _ => throw (.conditionTypeMismatch
      ("'In' condition property value must be str | int | float | bool | None, ".toList
        ++ "but was provided a".toList ++ "'".toList ++ getTypeName c.value
        ++ "' of segment ".toList ++ segmentName))
  | _ => throw (.conditionTypeMismatch
    ("'In' condition value must be a list, but was provided a '".toList ++ getTypeName c.value
      ++ "'".toList ++ " of segment ".toList ++ segmentName))

/-- `_evaluate_contains` -/
def evaluateContains (conditionProperty : Value) (segmentName : Text) : Except Error Bool :=
  match conditionProperty with
  | .list elements =>
    match c.value with
    | .scalar s => return inSet (s.lowered py) (createCaseInsensitiveSetFromList py elements)
    | _ => throw .typeError
  | _ => throw (.conditionTypeMismatch
    ("'Contains' can only be checked against a list, but was given a ".toList
      ++ getTypeName conditionProperty ++ " context property '".toList ++ conditionProperty.str py
      ++ "' of segment '".toList ++ segmentName ++ "'".toList))

/-- `_evaluate_equals` -/
def evaluateEquals (conditionProperty : Value) (segmentName : Text) : Except Error Bool :=
  if conditionProperty = .scalar .none then
    return false
  else if ¬conditionProperty.isInstance c.value.type then
    throw (.conditionTypeMismatch
      ("'Equals' operator cannot be applied to values of mismatching types".toList ++ "(".toList
        ++ getTypeName c.value ++ " and ".toList ++ getTypeName conditionProperty
        ++ ") for segment ".toList ++ segmentName))
  else
    match conditionProperty, c.value with
    | .scalar (.str property), .scalar (.str value) => return py.lower property = py.lower value
    | _, _ => return conditionProperty.eq c.value

/-- `_operator_match` -/
def operatorMatch (conditionProperty : Value) (segmentName : Text) : Except Error Bool :=
  match c.operator with
  | .in => c.evaluateIn py conditionProperty segmentName
  | .notIn => return !(← c.evaluateIn py conditionProperty segmentName)
  | .contains => c.evaluateContains py conditionProperty segmentName
  | .notContains => return !(← c.evaluateContains py conditionProperty segmentName)
  | .equals => c.evaluateEquals py conditionProperty segmentName
  | .notEquals => return !(← c.evaluateEquals py conditionProperty segmentName)

/-- `ConditionBase.match` -/
def «match» (context : EvaluationContext) (segmentName : Text) : Except Error Bool :=
  c.operatorMatch py (context.get c.property) segmentName

end Condition

namespace Condition

variable (c : Condition)

def TypesMatch (conditionProperty : Value) : Prop :=
  match c.operator with
  | .in | .notIn => c.value.type = .list ∧ conditionProperty.type ≠ .list ∧
      conditionProperty.type ≠ .dict
  | .contains | .notContains => conditionProperty.type = .list ∧ c.value.type ≠ .list ∧
      c.value.type ≠ .dict
  | .equals | .notEquals => conditionProperty = .scalar .none ∨
      conditionProperty.isInstance c.value.type

variable {c} {py} {property : Value} {segmentName : Text}

theorem evaluateIn_isOk (hvalue : c.value.type = .list) (hlist : property.type ≠ .list)
    (hdict : property.type ≠ .dict) : ∃ b, c.evaluateIn py property segmentName = .ok b := by
  match hc : c.value, hvalue with
  | .list values, _ =>
    match property, hlist, hdict with
    | .scalar s, _, _ => exact ⟨_, by simp only [evaluateIn, hc]; rfl⟩
    | .list _, hlist, _ => exact absurd rfl hlist
    | .dict _, _, hdict => exact absurd rfl hdict

theorem evaluateContains_isOk (hproperty : property.type = .list) (hlist : c.value.type ≠ .list)
    (hdict : c.value.type ≠ .dict) : ∃ b, c.evaluateContains py property segmentName = .ok b := by
  match property, hproperty with
  | .list elements, _ =>
    match hc : c.value, hlist, hdict with
    | .scalar s, _, _ => exact ⟨_, by simp only [evaluateContains, hc]; rfl⟩
    | .list _, hlist, _ => exact absurd rfl hlist
    | .dict _, _, hdict => exact absurd rfl hdict

theorem evaluateEquals_isOk (h : property = .scalar .none ∨ property.isInstance c.value.type) :
    ∃ b, c.evaluateEquals py property segmentName = .ok b := by
  unfold evaluateEquals
  by_cases hnone : property = .scalar .none
  · exact ⟨false, by rw [if_pos hnone]; rfl⟩
  · have hinstance := h.resolve_left hnone
    rw [if_neg hnone, if_neg (not_not_intro hinstance)]
    split
    · exact ⟨_, rfl⟩
    · exact ⟨_, rfl⟩

variable (py segmentName) in
theorem TypesMatch.isOk (h : c.TypesMatch property) :
    ∃ b, c.operatorMatch py property segmentName = .ok b := by
  have hnot {e : Except Error Bool} (he : ∃ b, e = .ok b) :
      ∃ b, (do return !(← e) : Except Error Bool) = .ok b := by
    obtain ⟨b, rfl⟩ := he
    exact ⟨!b, rfl⟩
  unfold TypesMatch at h
  unfold operatorMatch
  cases hoperator : c.operator with
  | «in» =>
    rw [hoperator] at h
    exact evaluateIn_isOk h.1 h.2.1 h.2.2
  | notIn =>
    rw [hoperator] at h
    exact hnot (evaluateIn_isOk h.1 h.2.1 h.2.2)
  | contains =>
    rw [hoperator] at h
    exact evaluateContains_isOk h.1 h.2.1 h.2.2
  | notContains =>
    rw [hoperator] at h
    exact hnot (evaluateContains_isOk h.1 h.2.1 h.2.2)
  | equals =>
    rw [hoperator] at h
    exact evaluateEquals_isOk h
  | notEquals =>
    rw [hoperator] at h
    exact hnot (evaluateEquals_isOk h)

end Condition

/-! ### Segments -/

/-- `Segment` -/
structure Segment where
  name : Text
  conditions : List Condition := []
  rollout : Option ℤ := some 100

/-- The loop of `Segment.match` -/
def matchConditions (context : EvaluationContext) (segmentName : Text) :
    List Condition → Except Error Bool
  | [] => return true
  | condition :: rest => do
    let matchCondition ← condition.match py context segmentName
    if !matchCondition then
      return false
    matchConditions context segmentName rest

namespace Segment

variable (s : Segment)

/-- `Segment.match` -/
def «match» (context : EvaluationContext) : Except Error Bool :=
  matchConditions py context s.name s.conditions

/-- `in_rollout`, of a context with an identifier. -/
def inRollout (id : ℕ) : Bool :=
  if s.rollout = some 0 then
    false
  else
    match s.rollout with
    | some rollout => if rollout < 100 then ((id % 100 : ℕ) : ℤ) ≤ rollout else true
    | none => true

/-- The rollout; that of a segment without one is to everybody. -/
def rate : ℤ := s.rollout.getD 100

def Holds (context : EvaluationContext) : Prop :=
  ∀ c ∈ s.conditions, c.match py context s.name = .ok true

instance (context : EvaluationContext) : Decidable (s.Holds py context) :=
  inferInstanceAs (Decidable (∀ _ ∈ s.conditions, _))

def TypesMatch (context : EvaluationContext) : Prop :=
  ∀ c ∈ s.conditions, c.TypesMatch (context.get c.property)

def grantedBuckets : Finset ℕ := (Finset.range 100).filter fun bucket ↦ s.inRollout bucket

variable {s} {py} {context : EvaluationContext}

variable (py) in
theorem matchConditions_iff (name : Text) {conditions : List Condition}
    (h : ∀ c ∈ conditions, c.TypesMatch (context.get c.property)) :
    ∃ b, matchConditions py context name conditions = .ok b ∧
      (b = true ↔ ∀ c ∈ conditions, c.match py context name = .ok true) := by
  induction conditions with
  | nil => exact ⟨true, rfl, by simp⟩
  | cons c rest ih =>
    rw [forall_mem_cons] at h
    obtain ⟨b, hb⟩ := h.1.isOk py name
    change c.match py context name = .ok b at hb
    cases b with
    | false => exact ⟨false, by rw [matchConditions, hb]; rfl, by simp [hb]⟩
    | true =>
      obtain ⟨b, hrest, hiff⟩ := ih h.2
      refine ⟨b, ?_, by simp [hb, hiff]⟩
      rw [matchConditions, hb]
      exact hrest

theorem match_of_holds (h : s.Holds py context) : s.match py context = .ok true := by
  have hall {conditions : List Condition}
      (h : ∀ c ∈ conditions, c.match py context s.name = .ok true) :
      matchConditions py context s.name conditions = .ok true := by
    induction conditions with
    | nil => rfl
    | cons c rest ih =>
      rw [forall_mem_cons] at h
      rw [matchConditions, h.1]
      exact ih h.2
  exact hall h

theorem match_of_not_holds (htypes : s.TypesMatch context) (h : ¬s.Holds py context) :
    s.match py context = .ok false := by
  obtain ⟨b, hb, hiff⟩ := matchConditions_iff py s.name htypes
  cases b with
  | false => exact hb
  | true => exact absurd (hiff.mp rfl) h

theorem inRollout_iff (h : 0 ≤ s.rate) (id : ℕ) :
    s.inRollout id = true ↔ 0 < s.rate ∧ (100 ≤ s.rate ∨ ((id % 100 : ℕ) : ℤ) ≤ s.rate) := by
  unfold rate at h ⊢
  cases hr : s.rollout with
  | none => simp [inRollout, hr]
  | some r =>
    rw [hr, Option.getD_some] at h
    by_cases hzero : r = 0
    · simp [inRollout, hr, hzero]
    · have hpos : 0 < r := by omega
      by_cases hall : r < 100
      · simp [inRollout, hr, hzero, hall, hpos, not_le.mpr hall]
      · simp [inRollout, hr, hzero, hall, hpos, not_lt.mp hall]

theorem inRollout_of_le {s' : Segment} (h : 0 ≤ s.rate) (hle : s.rate ≤ s'.rate) {id : ℕ}
    (hin : s.inRollout id = true) : s'.inRollout id = true := by
  rw [inRollout_iff h] at hin
  rw [inRollout_iff (h.trans hle)]
  refine ⟨hin.1.trans_le hle, ?_⟩
  rcases hin.2 with hall | hbucket
  · exact .inl (hall.trans hle)
  · exact .inr (hbucket.trans hle)

theorem card_grantedBuckets (hpos : 0 < s.rate) (hlt : s.rate < 100) :
    (s.grantedBuckets.card : ℤ) = s.rate + 1 := by
  have hgranted : s.grantedBuckets = Finset.range (s.rate.toNat + 1) := by
    ext bucket
    rw [grantedBuckets, Finset.mem_filter, inRollout_iff hpos.le, Finset.mem_range,
      Finset.mem_range]
    omega
  rw [hgranted, Finset.card_range]
  omega

end Segment

/-! ### Features -/

/-- `Feature` -/
structure Feature where
  enabled : Bool := true
  segments : List Segment := []

/-- The loop of `Feature.match` -/
def matchSegments (context : EvaluationContext) : List Segment → Except Error Bool
  | [] => return false
  | segment :: rest => do
    let «match» ← segment.match py context
    if «match» then
      return segment.inRollout (context.id py)
    matchSegments context rest

section Segments

variable {py} {context : EvaluationContext}

theorem matchSegments_eq {segments : List Segment} (htypes : ∀ s ∈ segments, s.TypesMatch context) :
    matchSegments py context segments =
      .ok (((segments.find? fun s ↦ s.Holds py context).map fun s ↦
        s.inRollout (context.id py)).getD false) := by
  induction segments with
  | nil => rfl
  | cons s rest ih =>
    rw [forall_mem_cons] at htypes
    by_cases hholds : s.Holds py context
    · rw [matchSegments, Segment.match_of_holds hholds, find?_cons_of_pos (by simpa using hholds)]
      rfl
    · rw [matchSegments, Segment.match_of_not_holds htypes.1 hholds,
        find?_cons_of_neg (by simpa using hholds)]
      exact ih htypes.2

theorem matchSegments_of_raised {segments segments' : List Segment}
    (hrates : ∀ s ∈ segments, 0 ≤ s.rate)
    (hraised : List.Forall₂ (fun s s' ↦ s.name = s'.name ∧ s.conditions = s'.conditions ∧
      s.rate ≤ s'.rate) segments segments')
    (h : matchSegments py context segments = .ok true) :
    matchSegments py context segments' = .ok true := by
  induction hraised with
  | nil => exact h
  | @cons s s' rest rest' hs hrest ih =>
    rw [forall_mem_cons] at hrates
    have hmatch : s'.match py context = s.match py context := by
      rw [Segment.match, Segment.match, hs.1, hs.2.1]
    rw [matchSegments] at h ⊢
    rw [hmatch]
    match hm : s.match py context with
    | .error e =>
      rw [hm] at h
      cases h
    | .ok false =>
      rw [hm] at h
      exact ih hrates.2 h
    | .ok true =>
      rw [hm] at h
      have hin : s.inRollout (context.id py) = true := Except.ok.inj h
      show Except.ok (s'.inRollout _) = _
      rw [Segment.inRollout_of_le hrates.1 hs.2.2 hin]

end Segments

namespace Feature

variable (f : Feature)

/-- `Feature.match` -/
def «match» (context : EvaluationContext) : Except Error Bool :=
  if !f.enabled then return false else matchSegments py context f.segments

def TypesMatch (context : EvaluationContext) : Prop := ∀ s ∈ f.segments, s.TypesMatch context

def FirstMatch (context : EvaluationContext) (s : Segment) : Prop :=
  (f.segments.find? fun s ↦ s.Holds py context) = some s

def RaisedTo (f' : Feature) : Prop :=
  f.enabled = f'.enabled ∧ List.Forall₂ (fun s s' ↦ s.name = s'.name ∧
    s.conditions = s'.conditions ∧ s.rate ≤ s'.rate) f.segments f'.segments

/-- The rollout of the feature is exact and stable: there are `r` buckets for a rollout of `r` that
decide in every context whose types match, a higher rollout takes the feature from no context, and
contexts with the same identity and the same segment get the same answer. -/
structure RolledOut : Prop where
  exactly : ∃ buckets : ℤ → Finset ℕ,
    (∀ r, 0 ≤ r → r ≤ 100 → buckets r ⊆ Finset.range 100 ∧ ((buckets r).card : ℤ) = r) ∧
      ∀ context, f.TypesMatch context → (f.match py context = .ok true ↔
        f.enabled = true ∧ ∃ s, f.FirstMatch py context s ∧ context.bucket py ∈ buckets s.rate)
  raised : ∀ f', f.RaisedTo f' → ∀ context, f.match py context = .ok true →
    f'.match py context = .ok true
  stable : ∀ context other, f.TypesMatch context → f.TypesMatch other →
    context.SameIdentity other → ∀ s, f.FirstMatch py context s → f.FirstMatch py other s →
      f.match py context = f.match py other

/-- Of the buckets from `0` to a rollout, one is never taken: no context falls in it, or those which
do are not decided by a segment of this rollout. -/
def SparesBucket : Prop :=
  ∀ r : ℤ, 0 < r → r < 100 → ∃ spare : ℕ, (spare : ℤ) ≤ r ∧
    ∀ context s, f.enabled = true → f.TypesMatch context → f.FirstMatch py context s →
      s.rate = r → context.bucket py ≠ spare

variable {f} {py} {context : EvaluationContext} {s : Segment}

theorem match_of_enabled (h : f.enabled = true) :
    f.match py context = matchSegments py context f.segments := by
  rw [«match», h]
  rfl

theorem enabled_of_match (h : f.match py context = .ok true) : f.enabled = true := by
  by_contra hdisabled
  rw [«match», Bool.eq_false_iff.mpr hdisabled] at h
  cases h

theorem match_of_firstMatch (henabled : f.enabled = true) (htypes : f.TypesMatch context)
    (h : f.FirstMatch py context s) : f.match py context = .ok (s.inRollout (context.id py)) := by
  rw [match_of_enabled henabled, matchSegments_eq htypes, h]
  rfl

theorem FirstMatch.mem (h : f.FirstMatch py context s) : s ∈ f.segments :=
  mem_of_find?_eq_some h

theorem match_iff (htypes : f.TypesMatch context) :
    f.match py context = .ok true ↔
      f.enabled = true ∧ ∃ s, f.FirstMatch py context s ∧ s.inRollout (context.id py) = true := by
  constructor
  · intro h
    have henabled := enabled_of_match h
    rw [match_of_enabled henabled, matchSegments_eq htypes, Except.ok.injEq] at h
    refine ⟨henabled, ?_⟩
    cases hfirst : f.segments.find? fun s ↦ s.Holds py context with
    | none =>
      rw [hfirst] at h
      cases h
    | some s =>
      rw [hfirst] at h
      exact ⟨s, hfirst, h⟩
  · rintro ⟨henabled, s, hs, hin⟩
    rw [match_of_firstMatch henabled htypes hs, hin]

theorem match_of_raisedTo {f' : Feature} (hrates : ∀ s ∈ f.segments, 0 ≤ s.rate)
    (hraised : f.RaisedTo f') (h : f.match py context = .ok true) :
    f'.match py context = .ok true := by
  have henabled := enabled_of_match h
  rw [match_of_enabled henabled] at h
  rw [match_of_enabled (hraised.1 ▸ henabled)]
  exact matchSegments_of_raised hrates hraised.2 h

theorem match_stable {other : EvaluationContext} (htypes : f.TypesMatch context)
    (htypes' : f.TypesMatch other) (hsame : context.SameIdentity other)
    (h : f.FirstMatch py context s) (h' : f.FirstMatch py other s) :
    f.match py context = f.match py other := by
  by_cases henabled : f.enabled = true
  · rw [match_of_firstMatch henabled htypes h, match_of_firstMatch henabled htypes' h', hsame.id_eq]
  · rw [«match», «match», Bool.eq_false_iff.mpr henabled]
    rfl

end Feature

/-! ### Exactly as many buckets as the rollout says -/

namespace Feature

variable {f : Feature} {py}

def bucketsBut (spare : ℤ → ℕ) (r : ℤ) : Finset ℕ :=
  if r ≤ 0 then ∅
  else if 100 ≤ r then Finset.range 100
  else (Finset.range (r.toNat + 1)).erase (spare r)

theorem bucketsBut_spec {spare : ℤ → ℕ} (hspare : ∀ r, 0 < r → r < 100 → (spare r : ℤ) ≤ r) {r : ℤ}
    (hr : 0 ≤ r) (hle : r ≤ 100) :
    bucketsBut spare r ⊆ Finset.range 100 ∧ ((bucketsBut spare r).card : ℤ) = r := by
  unfold bucketsBut
  by_cases hzero : r ≤ 0
  · rw [if_pos hzero, Finset.card_empty]
    exact ⟨Finset.empty_subset _, by omega⟩
  · rw [if_neg hzero]
    by_cases hall : 100 ≤ r
    · rw [if_pos hall, Finset.card_range]
      exact ⟨subset_rfl, by omega⟩
    · rw [if_neg hall]
      have hmem : spare r ∈ Finset.range (r.toNat + 1) := by
        rw [Finset.mem_range]
        have := hspare r (by omega) (by omega)
        omega
      rw [Finset.card_erase_of_mem hmem, Finset.card_range]
      refine ⟨(Finset.erase_subset _ _).trans (Finset.range_subset_range.mpr (by omega)), by omega⟩

theorem mem_bucketsBut_iff {spare : ℤ → ℕ} {s : Segment} (hrate : 0 ≤ s.rate) {id : ℕ}
    (hne : 0 < s.rate → s.rate < 100 → id % 100 ≠ spare s.rate) :
    id % 100 ∈ bucketsBut spare s.rate ↔ s.inRollout id = true := by
  have hlt : id % 100 < 100 := Nat.mod_lt _ (by omega)
  rw [Segment.inRollout_iff hrate]
  unfold bucketsBut
  by_cases hzero : s.rate ≤ 0
  · rw [if_pos hzero]
    simp [not_lt.mpr hzero]
  · rw [if_neg hzero]
    by_cases hall : 100 ≤ s.rate
    · rw [if_pos hall, Finset.mem_range]
      exact ⟨fun _ ↦ ⟨not_le.mp hzero, .inl hall⟩, fun _ ↦ hlt⟩
    · have hspared := hne (not_le.mp hzero) (not_le.mp hall)
      rw [if_neg hall, Finset.mem_erase, Finset.mem_range]
      omega

/-- If each of the buckets from `0` to `r` is taken, `r` of them are not enough. -/
theorem RolledOut.sparesBucket (h : f.RolledOut py) : f.SparesBucket py := by
  obtain ⟨buckets, hcard, hmatch⟩ := h.exactly
  intro r hpos hlt
  by_contra hnone
  push Not at hnone
  have hsubset : Finset.range (r.toNat + 1) ⊆ buckets r := by
    intro b hb
    have hle : (b : ℤ) ≤ r := by
      rw [Finset.mem_range] at hb
      omega
    obtain ⟨context, s, henabled, htypes, hs, hrate, hbucket⟩ := hnone b hle
    have hgranted : s.inRollout (context.id py) = true := by
      rw [Segment.inRollout_iff (by omega), hrate]
      refine ⟨hpos, .inr ?_⟩
      change ((context.bucket py : ℕ) : ℤ) ≤ r
      rw [hbucket]
      exact hle
    have hanswer := match_of_firstMatch henabled htypes hs
    rw [hgranted, hmatch context htypes] at hanswer
    obtain ⟨-, s', hs', hmem⟩ := hanswer
    have heq : s' = s := Option.some.inj (hs'.symm.trans hs)
    rw [heq, hrate, hbucket] at hmem
    exact hmem
  have hle := Finset.card_le_card hsubset
  have hbuckets := (hcard r hpos.le hlt.le).2
  rw [Finset.card_range] at hle
  omega

/-- The rollout of a feature is exact and stable if and only if, for every rollout from `1` to `99`,
one of the buckets up to it is never taken. -/
theorem rollout_iff (h : ∀ s ∈ f.segments, 0 ≤ s.rate ∧ s.rate ≤ 100) :
    f.RolledOut py ↔ f.SparesBucket py := by
  refine ⟨RolledOut.sparesBucket, fun hspares ↦ ?_⟩
  have hspare (r : ℤ) : ∃ spare : ℕ, 0 < r → r < 100 → (spare : ℤ) ≤ r ∧
      ∀ context s, f.enabled = true → f.TypesMatch context → f.FirstMatch py context s →
        s.rate = r → context.bucket py ≠ spare := by
    by_cases hr : 0 < r ∧ r < 100
    · obtain ⟨spare, hspare⟩ := hspares r hr.1 hr.2
      exact ⟨spare, fun _ _ ↦ hspare⟩
    · exact ⟨0, fun hpos hlt ↦ absurd ⟨hpos, hlt⟩ hr⟩
  choose spare hspare using hspare
  refine ⟨⟨bucketsBut spare, fun r ↦ bucketsBut_spec fun r hpos hlt ↦ (hspare r hpos hlt).1,
    fun context htypes ↦ ?_⟩, fun f' hraised context ↦ match_of_raisedTo (fun s hs ↦ (h s hs).1)
    hraised, fun context other htypes htypes' hsame s ↦ match_stable htypes htypes' hsame⟩
  rw [match_iff htypes]
  refine and_congr_right fun henabled ↦ exists_congr fun s ↦ and_congr_right fun hs ↦ ?_
  exact (mem_bucketsBut_iff (h s hs.mem).1 fun hpos hlt ↦
    (hspare _ hpos hlt).2 context s henabled htypes hs rfl).symm

/-- `str.lower` of ASCII, and the digests of the identities `id:4` and `id:24`. -/
def recorded : Builtins where
  lower text := text.map Char.toLower
  reprFloat _ := "0.0".toList
  printable c := 32 ≤ c.toNat ∧ c.toNat < 127
  sha1 text :=
    if text = "id:4".toList then
      [54, 130, 43, 55, 230, 202, 149, 85, 255, 190, 116, 184, 48, 151, 147, 40, 112, 182, 27, 40]
    else if text = "id:24".toList then
      [248, 193, 157, 233, 175, 113, 131, 65, 2, 230, 73, 206, 100, 210, 169, 67, 54, 11, 39, 245]
    else
      List.replicate 20 0

def organization (n : ℕ) : EvaluationContext where
  data := [("id".toList, .scalar (.int n))]
  nodup_keys := nodup_singleton _
  givenFields := none

theorem bucket_organization (n : ℕ) :
    (organization n).bucket recorded = EvaluationContext.fromBytes (recorded.sha1
      ("id:".toList ++ (toString (n : ℤ)).toList)) % 100 := by
  have hfields : (organization n).identityFields = {"id".toList} := by
    simp [organization, EvaluationContext.identityFields, EvaluationContext.keys]
  have hget : (organization n).get ['i', 'd'] = .scalar (.int n) := rfl
  show EvaluationContext.id _ _ % 100 = _
  simp [EvaluationContext.id, hfields, hget, Value.str, Scalar.repr, List.intercalate]

/-- A rollout to one percent. -/
def onePercent : Feature where
  segments := [{ name := "all".toList, rollout := some 1 }]

/-- Two buckets are granted to one percent of the contexts. -/
theorem onePercent_not_rolledOut : ¬onePercent.RolledOut recorded := by
  intro h
  obtain ⟨spare, hle, hspare⟩ := h.sparesBucket 1 (by omega) (by omega)
  have htaken (n : ℕ) : (organization n).bucket recorded ≠ spare :=
    hspare (organization n) { name := "all".toList, rollout := some 1 } rfl
      (by simp [TypesMatch, Segment.TypesMatch, onePercent])
      (by simp [FirstMatch, Segment.Holds, onePercent]) rfl
  have hfour : (organization 4).bucket recorded = 0 := by
    rw [bucket_organization]
    decide
  have htwentyFour : (organization 24).bucket recorded = 1 := by
    rw [bucket_organization]
    decide
  have hzero := htaken 4
  have hone := htaken 24
  omega

/-- An early adopter gets the feature, and nobody else does. -/
def earlyAdopters : Feature where
  segments := [{
      name := "all".toList
      conditions := [⟨"beta".toList, .scalar (.bool false), .equals⟩]
      rollout := some 0 },
    { name := "early".toList }]

theorem earlyAdopters_rollout_iff :
    earlyAdopters.RolledOut recorded ↔ earlyAdopters.SparesBucket recorded :=
  rollout_iff (by simp [earlyAdopters, Segment.rate])

end Feature

end Sentry.Flagpole
