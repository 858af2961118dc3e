import Mathlib.Data.List.TakeWhile
import Mathlib.Tactic.Common

/-!
# Java signatures

`parse_obfuscated_signature` cuts a descriptor at its last `)`, and scans the parameter types with a
count of pending brackets. That reads every descriptor whose return type has no `)`, which the name
of a class may have; then the cut is in that name (`deobfuscateSignature_iff`).
-/

namespace Sentry.Profiles.Java

open List

abbrev Text := List Char

inductive PythonError
  | indexError

/-- `JAVA_BASE_TYPES`. -/
def javaBaseTypes : Char → Option Text
  | 'Z' => some "boolean".toList
  | 'B' => some "byte".toList
  | 'C' => some "char".toList
  | 'S' => some "short".toList
  | 'I' => some "int".toList
  | 'J' => some "long".toList
  | 'F' => some "float".toList
  | 'D' => some "double".toList
  | 'V' => some "void".toList
  | _ => none

/-- `text[start:stop]`. -/
def slice (text : Text) (start stop : ℕ) : Text := (text.take stop).drop start

/-- `text.rsplit(")", 1)`, if that gives two parts. -/
def rsplit (text : Text) : Option (Text × Text) :=
  match text.reverse.dropWhile (· ≠ ')') with
  | [] => none
  | _ :: before => some (before.reverse, (text.reverse.takeWhile (· ≠ ')')).reverse)

/-- The loop over the parameter types; `none` for the return at a class name that does not end. -/
def parseTypes (parameterTypes : Text) (i arrays : ℕ) (types : List Text) : Option (List Text) :=
  if h : i < parameterTypes.length then
    if (javaBaseTypes parameterTypes[i]).isSome then
      parseTypes parameterTypes (i + 1) 0 (types ++ [slice parameterTypes (i - arrays) (i + 1)])
    else if parameterTypes[i] = 'L' then
      match (parameterTypes.drop i).idxOf? ';' with
      | none => none
      | some n => parseTypes parameterTypes (i + n + 1) 0
          (types ++ [slice parameterTypes (i - arrays) (i + n + 1)])
    else if parameterTypes[i] = '[' then parseTypes parameterTypes (i + 1) (arrays + 1) types
    else parseTypes parameterTypes (i + 1) 0 types
  else some types
termination_by parameterTypes.length - i

def parseObfuscatedSignature : Text → Except PythonError (List Text × Text)
  | [] => .error .indexError
  | first :: signature =>
    if first ≠ '(' then .ok ([], [])
    else
      match rsplit signature with
      | none => .ok ([], [])
      | some (parameterTypes, returnType) =>
        match parseTypes parameterTypes 0 0 [] with
        | none => .ok ([], [])
        | some types => .ok (types, returnType)

def byteCodeTypeToJavaType : Text → Text
  | [] => []
  | token :: rest =>
    match javaBaseTypes token with
    | some javaType => javaType
    | none =>
      if token = 'L' then
        if (token :: rest).getLast? ≠ some ';' then token :: rest
        else rest.dropLast.map fun c ↦ if c = '/' then '.' else c
      else if token = '[' then byteCodeTypeToJavaType rest ++ "[]".toList
      else token :: rest

def deobfuscateSignature (signature : Text) : Except PythonError (Option (List Text × Text)) :=
  if signature = [] then .ok none
  else
    match parseObfuscatedSignature signature with
    | .error e => .error e
    | .ok (parameterTypes, returnType) =>
      if parameterTypes = [] ∧ returnType = [] then .ok none
      else .ok (some (parameterTypes.map byteCodeTypeToJavaType, byteCodeTypeToJavaType returnType))

/-! ### Descriptors -/

inductive BaseType
  | boolean | byte | char | short | int | long | float | double

/-- The token of a type, and its name in Java. -/
def BaseType.written : BaseType → Char × Text
  | boolean => ('Z', "boolean".toList)
  | byte => ('B', "byte".toList)
  | char => ('C', "char".toList)
  | short => ('S', "short".toList)
  | int => ('I', "int".toList)
  | long => ('J', "long".toList)
  | float => ('F', "float".toList)
  | double => ('D', "double".toList)

structure Identifier where
  chars : Text
  ne_nil : chars ≠ []
  valid : ∀ c ∈ chars, c ≠ '.' ∧ c ≠ ';' ∧ c ≠ '[' ∧ c ≠ '/'

def separated (separator : Char) (first : Identifier) (rest : List Identifier) : Text :=
  first.chars ++ rest.flatMap fun identifier ↦ separator :: identifier.chars

/-- A class has the identifiers of its packages, and its own. -/
inductive FieldType
  | base (type : BaseType)
  | object (first : Identifier) (rest : List Identifier)
  | array (component : FieldType)

namespace FieldType

/-- The descriptor of a type. -/
def text : FieldType → Text
  | base type => [type.written.1]
  | object first rest => 'L' :: (separated '/' first rest ++ [';'])
  | array component => '[' :: component.text

/-- The name of a type in Java. -/
def javaName : FieldType → Text
  | base type => type.written.2
  | object first rest => separated '.' first rest
  | array component => component.javaName ++ "[]".toList

end FieldType

/-- The return type is `void` if there is none. -/
structure MethodDescriptor where
  parameterTypes : List FieldType
  returnType : Option FieldType

namespace MethodDescriptor

variable (d : MethodDescriptor)

def returnText : Text := (d.returnType.map FieldType.text).getD ['V']

def text : Text := '(' :: (d.parameterTypes.flatMap FieldType.text ++ ')' :: d.returnText)

def javaNames : List Text × Text :=
  (d.parameterTypes.map FieldType.javaName,
    (d.returnType.map FieldType.javaName).getD "void".toList)

end MethodDescriptor

/-! ### Parameter types -/

section

variable {arrays : ℕ} {s start after : Text}

theorem drop_brackets (hs : s = start ++ (replicate arrays '[' ++ after)) :
    s.drop (start.length + arrays) = after := by
  rw [hs, ← append_assoc]
  exact drop_left' (by simp)

theorem getElem_brackets {c : Char} (hs : s = start ++ (replicate arrays '[' ++ c :: after)) :
    ∃ h : start.length + arrays < s.length, s[start.length + arrays] = c := by
  rw [← List.getElem?_eq_some_iff, ← head?_drop, drop_brackets hs, head?_cons]

/-- The slice of a type has the pending brackets. -/
theorem slice_brackets {middle : Text}
    (hs : s = start ++ (replicate arrays '[' ++ (middle ++ after))) :
    slice s (start.length + arrays - arrays) (start.length + arrays + middle.length) =
      replicate arrays '[' ++ middle := by
  have hlength : (start ++ (replicate arrays '[' ++ middle)).length =
      start.length + arrays + middle.length := by
    simp [Nat.add_assoc]
  rw [slice, Nat.add_sub_cancel, hs, ← append_assoc (replicate arrays '['), ← append_assoc start,
    take_left' hlength, drop_left]

theorem idxOf?_semicolon {read : Text} (h : ';' ∉ read) (after : Text) :
    (read ++ ';' :: after).idxOf? ';' = some read.length := by
  have hnone : read.findIdx? (· == ';') = none := idxOf?_eq_none_iff.mpr h
  rw [idxOf?, findIdx?_append, hnone]
  simp [findIdx?_cons]

end

section

variable (first : Identifier) (rest : List Identifier)

theorem map_separated : (separated '/' first rest).map (fun c ↦ if c = '/' then '.' else c) =
    separated '.' first rest := by
  have hkept (identifier : Identifier) :
      identifier.chars.map (fun c ↦ if c = '/' then '.' else c) = identifier.chars :=
    (map_congr_left fun c hc ↦ if_neg (identifier.valid c hc).2.2.2).trans (map_id' _)
  rw [separated, map_append, hkept, map_flatMap]
  simp only [map_cons, hkept, if_true]
  rfl

theorem semicolon_notMem : ';' ∉ separated '/' first rest := by
  have hnot (identifier : Identifier) : ';' ∉ identifier.chars :=
    fun hmem ↦ (identifier.valid ';' hmem).2.1 rfl
  simp [separated, hnot]

end

variable {s : Text}

theorem parseTypes_text (t : FieldType) {start after : Text} {arrays : ℕ} (types : List Text)
    (hs : s = start ++ (replicate arrays '[' ++ (t.text ++ after))) :
    parseTypes s (start.length + arrays) arrays types =
      parseTypes s (start.length + arrays + t.text.length) 0
        (types ++ [replicate arrays '[' ++ t.text]) := by
  induction t generalizing arrays types with
  | base type =>
    obtain ⟨hi, hget⟩ := getElem_brackets hs
    have htoken : (javaBaseTypes type.written.1).isSome := by cases type <;> rfl
    rw [parseTypes, dif_pos hi, hget, if_pos htoken, ← slice_brackets hs]
    rfl
  | object first rest =>
    obtain ⟨hi, hget⟩ := getElem_brackets hs
    have hindex : (s.drop (start.length + arrays)).idxOf? ';' =
        some ('L' :: separated '/' first rest).length := by
      rw [drop_brackets hs, ← @idxOf?_semicolon _ _ after]
      · simp [FieldType.text]
      · simp [semicolon_notMem]
    have hlength : ('L' :: separated '/' first rest).length + 1 =
        (FieldType.object first rest).text.length := by
      simp [FieldType.text]
    rw [parseTypes, dif_pos hi, hget, if_neg (by decide), if_pos rfl, hindex, ← slice_brackets hs,
      ← hlength]
    rfl
  | array component ih =>
    obtain ⟨hi, hget⟩ := getElem_brackets hs
    have hbrackets (text : Text) : replicate (arrays + 1) '[' ++ text =
        replicate arrays '[' ++ '[' :: text := by
      rw [replicate_succ', append_assoc, singleton_append]
    have hcomponent := ih types (hs.trans (congrArg (start ++ ·) (hbrackets _).symm))
    rw [parseTypes, dif_pos hi, hget, if_neg (by decide), if_neg (by decide), if_pos rfl]
    refine hcomponent.trans ?_
    rw [hbrackets, FieldType.text, length_cons]
    congr 1
    omega

theorem parseTypes_flatMap (ts : List FieldType) (before : Text) (types : List Text)
    (hs : s = before ++ ts.flatMap FieldType.text) :
    parseTypes s before.length 0 types = some (types ++ ts.map FieldType.text) := by
  induction ts generalizing before types with
  | nil =>
    rw [parseTypes, dif_neg (by simp [hs]), map_nil, append_nil]
  | cons t ts ih =>
    have hstep : parseTypes s (before.length + 0) 0 types = _ := parseTypes_text t types hs
    rw [Nat.add_zero] at hstep
    rw [hstep, ← length_append, ih (before ++ t.text) _ (by rw [hs, flatMap_cons, append_assoc]),
      map_cons, append_assoc]
    rfl

/-! ### Names -/

theorem byteCodeTypeToJavaType_text (t : FieldType) :
    byteCodeTypeToJavaType t.text = t.javaName := by
  induction t with
  | base type => cases type <;> rfl
  | object first rest =>
    show (if ('L' :: (separated '/' first rest ++ [';'])).getLast? ≠ some ';' then _ else _) = _
    rw [← cons_append, getLast?_concat, if_neg (not_not.mpr rfl), dropLast_concat]
    exact map_separated first rest
  | array component ih => exact congrArg (· ++ "[]".toList) ih

theorem paren_notMem_javaBaseTypes {token : Char} {javaType : Text}
    (h : javaBaseTypes token = some javaType) : ')' ∉ javaType := by
  unfold javaBaseTypes at h
  split at h <;> cases h <;> decide

theorem paren_notMem_byteCodeTypeToJavaType {byteCodeType : Text} (h : ')' ∉ byteCodeType) :
    ')' ∉ byteCodeTypeToJavaType byteCodeType := by
  induction byteCodeType with
  | nil => exact h
  | cons token rest ih =>
    have hrest : ')' ∉ rest := fun hmem ↦ h (mem_cons_of_mem token hmem)
    rw [byteCodeTypeToJavaType]
    cases hbase : javaBaseTypes token with
    | some javaType => exact paren_notMem_javaBaseTypes hbase
    | none =>
      split_ifs
      · exact h
      · intro hmem
        obtain ⟨c, hc, heq⟩ := mem_map.mp hmem
        split_ifs at heq with hslash
        · exact absurd heq (by decide)
        · exact hrest (heq ▸ (dropLast_sublist rest).subset hc)
      · simpa using ih hrest
      · exact h

theorem paren_mem_javaName {t : FieldType} (h : ')' ∈ t.text) : ')' ∈ t.javaName := by
  induction t with
  | base type => cases type <;> revert h <;> decide
  | object first rest =>
    have hmem : ')' ∈ separated '/' first rest := by simpa [FieldType.text] using h
    rw [FieldType.javaName, ← map_separated]
    exact mem_map.mpr ⟨')', hmem, rfl⟩
  | array component ih => exact mem_append_left _ (ih (by simpa [FieldType.text] using h))

/-! ### Signatures -/

theorem rsplit_append (before : Text) {after : Text} (h : ')' ∉ after) :
    rsplit (before ++ ')' :: after) = some (before, after) := by
  have hafter : ∀ c ∈ after.reverse, decide (c ≠ ')') = true := fun c hc ↦
    decide_eq_true fun heq ↦ h (heq ▸ mem_reverse.mp hc)
  rw [rsplit, reverse_append, reverse_cons, append_assoc, dropWhile_append_of_pos hafter,
    takeWhile_append_of_pos hafter]
  simp

theorem paren_notMem_of_rsplit {text before after : Text} (h : rsplit text = some (before, after)) :
    ')' ∉ after := by
  unfold rsplit at h
  split at h
  · cases h
  · obtain ⟨-, rfl⟩ := Prod.mk.inj (Option.some.inj h)
    intro hmem
    simpa using mem_takeWhile_imp (mem_reverse.mp hmem)

theorem deobfuscateSignature_text {d : MethodDescriptor} (h : ')' ∉ d.returnText) :
    deobfuscateSignature d.text = .ok (some d.javaNames) := by
  have hparse : parseObfuscatedSignature d.text =
      .ok (d.parameterTypes.map FieldType.text, d.returnText) := by
    rw [MethodDescriptor.text, parseObfuscatedSignature, if_neg (by simp), rsplit_append _ h]
    have htypes : parseTypes (d.parameterTypes.flatMap FieldType.text) 0 0 [] = _ :=
      parseTypes_flatMap d.parameterTypes [] [] rfl
    dsimp only
    rw [htypes]
    rfl
  have hreturn : byteCodeTypeToJavaType d.returnText = d.javaNames.2 ∧ d.returnText ≠ [] := by
    unfold MethodDescriptor.returnText MethodDescriptor.javaNames
    cases d.returnType with
    | none => exact ⟨rfl, by simp⟩
    | some t => exact ⟨byteCodeTypeToJavaType_text t, by cases t <;> simp [FieldType.text]⟩
  rw [deobfuscateSignature, if_neg (by simp [MethodDescriptor.text]), hparse]
  dsimp only
  rw [if_neg fun hnil ↦ hreturn.2 hnil.2, hreturn.1, map_map]
  simp only [Function.comp_def, byteCodeTypeToJavaType_text]
  rfl

theorem exists_parseObfuscatedSignature {signature : Text} (h : signature ≠ []) :
    ∃ types returnType, parseObfuscatedSignature signature = .ok (types, returnType) ∧
      ')' ∉ returnType := by
  cases signature with
  | nil => exact absurd rfl h
  | cons first signature =>
    rw [parseObfuscatedSignature]
    split_ifs
    · exact ⟨[], [], rfl, not_mem_nil⟩
    · cases hparts : rsplit signature with
      | none => exact ⟨[], [], rfl, not_mem_nil⟩
      | some parts =>
        cases htypes : parseTypes parts.1 0 0 [] with
        | none => exact ⟨[], [], by simp only [htypes], not_mem_nil⟩
        | some types =>
          exact ⟨types, parts.2, by simp only [htypes], paren_notMem_of_rsplit hparts⟩

theorem exists_deobfuscateSignature (signature : Text) :
    ∃ result, deobfuscateSignature signature = .ok result ∧ ∀ types ∈ result, ')' ∉ types.2 := by
  rw [deobfuscateSignature]
  split_ifs with hempty
  · exact ⟨none, rfl, nofun⟩
  obtain ⟨types, returnType, hparse, hnot⟩ := exists_parseObfuscatedSignature hempty
  rw [hparse]
  dsimp only
  split_ifs
  · exact ⟨none, rfl, nofun⟩
  · refine ⟨_, rfl, fun result hresult ↦ ?_⟩
    rw [← Option.some.inj hresult]
    exact paren_notMem_byteCodeTypeToJavaType hnot

theorem paren_notMem_returnText {d : MethodDescriptor}
    (h : deobfuscateSignature d.text = .ok (some d.javaNames)) : ')' ∉ d.returnText := by
  obtain ⟨result, hresult, hnot⟩ := exists_deobfuscateSignature d.text
  obtain rfl := Except.ok.inj (hresult.symm.trans h)
  replace hnot := hnot _ rfl
  revert hnot
  unfold MethodDescriptor.returnText MethodDescriptor.javaNames
  cases d.returnType with
  | none => exact fun _ ↦ by decide
  | some t => exact mt paren_mem_javaName

/-- Every signature is read without an error, and a descriptor is read as it is meant if and only if
its return type has no closing parenthesis. -/
theorem deobfuscateSignature_iff (signature : Text) (d : MethodDescriptor) :
    (∃ result, deobfuscateSignature signature = .ok result) ∧
      (deobfuscateSignature d.text = .ok (some d.javaNames) ↔ ')' ∉ d.returnText) :=
  ⟨(exists_deobfuscateSignature signature).imp fun _ h ↦ h.1,
    ⟨paren_notMem_returnText, deobfuscateSignature_text⟩⟩

/-- The class `A)B`, in no package. -/
def parenthesis : MethodDescriptor where
  parameterTypes := []
  returnType := some (.object ⟨['A', ')', 'B'], by decide, by decide⟩ [])

theorem not_deobfuscateSignature :
    ¬ ∀ d : MethodDescriptor, deobfuscateSignature d.text = .ok (some d.javaNames) :=
  fun h ↦ paren_notMem_returnText (h parenthesis) (by decide)

end Sentry.Profiles.Java
