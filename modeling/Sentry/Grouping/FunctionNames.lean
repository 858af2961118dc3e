import Sentry.Grouping.Normalization
import Sentry.Library.Backtracking
import Mathlib.Data.List.DropRight
import Mathlib.Data.List.Infix

/-!
# Trimming function names

`stacktraces/functions.py`. A native function name is prepared (`signature`), and its tokens at no
depth are searched for the one that names the function. The scanners never raise
(`replaceEnclosedString_ok`). What may raise is the search for the object of a Swift initialization
expression, the last `of` and the token after it (`trims_iff`).
-/

namespace Sentry.Grouping

open List Option
open Library.Backtracking

/-- The exceptions that may come up. -/
inductive Failure
  | assertionError
  | valueError
  | indexError
  deriving DecidableEq

/-- What `re` reads of the Unicode database. -/
structure Unicode where
  isAlnum : Char → Bool
  isDecimal : Char → Bool

/-! ### Strings -/

/-- `str.isspace` of a character. -/
def isSpace (c : Char) : Bool :=
  c.toNat ∈ [0x20, 0x85, 0xa0, 0x1680, 0x2028, 0x2029, 0x202f, 0x205f, 0x3000] ∨
    0x09 ≤ c.toNat ∧ c.toNat ≤ 0x0d ∨ 0x1c ≤ c.toNat ∧ c.toNat ≤ 0x1f ∨
    0x2000 ≤ c.toNat ∧ c.toNat ≤ 0x200a

/-- `str.rstrip` -/
def rstrip (s : Str) : Str := s.rdropWhile isSpace

/-- `str.strip` -/
def strip (s : Str) : Str := rstrip (s.dropWhile isSpace)

/-- `str.replace`, of a text that is not empty. -/
def replaceAll (old new : Str) : Str → Str
  | [] => []
  | c :: rest =>
    if old <+: c :: rest ∧ old ≠ [] then new ++ replaceAll old new (rest.drop (old.length - 1))
    else c :: replaceAll old new rest
termination_by s => s.length
decreasing_by all_goals simp only [length_drop, length_cons]; omega

/-- `s.split(sep, 1)[0]` -/
def beforeFirst (sep : Str) : Str → Str
  | [] => []
  | c :: rest => if sep <+: c :: rest then [] else c :: beforeFirst sep rest

/-- `s[start:stop]` -/
def slice (s : Str) (start stop : ℕ) : Str := (s.drop start).take (stop - start)

/-! ### Regular expressions -/

section Patterns

variable (unicode : Unicode)

def Unicode.isWord (c : Char) : Bool := unicode.isAlnum c ∨ c = '_'

def isDigit (c : Char) : Bool := '0' ≤ c ∧ c ≤ '9'

def isLower (c : Char) : Bool := 'a' ≤ c ∧ c ≤ 'z'

def isHex (c : Char) : Bool := isDigit c ∨ 'a' ≤ c ∧ c ≤ 'f'

/-- `_windecl_hash`, without its group. -/
def windeclHashEnd : Pattern := seqs [word ['@'], manyOne isDigit, textEnd]

/-- `_windecl_hash.sub("\\1", function)`: its group, and what is left after the match. -/
def subWindeclHash (function : Str) : Str :=
  let groups := (seq textStart (optional (word ['@'])) ⟨[], function⟩).flatMap fun opened ↦
    (manyLazy dot opened).flatMap fun closed ↦
      (windeclHashEnd closed).map fun place ↦
        slice function opened.before.length closed.before.length ++ place.after
  groups.head?.getD function

/-- `_rust_hash` -/
def rustHash : Pattern :=
  seqs [word "::h".toList, times 16 (oneOf fun c ↦ isLower c || isDigit c), textEnd]

/-- `_gnu_version` -/
def gnuVersion : Pattern :=
  seqs [word ['@'], optional (word ['@']), word "GLIBC_".toList,
    manyOne fun c ↦ isDigit c || c = '.', textEnd]

/-- `_cpp_trailer_re` -/
def cppTrailerRe : Pattern :=
  seq (either (seqs [boundary unicode.isWord, word "const".toList, boundary unicode.isWord])
    (word ['&'])) textEnd

/-- `_rust_blanket_re` -/
def rustBlanketRe : Pattern :=
  seqs [textStart, oneOf fun c ↦ decide ('A' ≤ c ∧ c ≤ 'Z'), word " as ".toList]

/-- `_lambda_re`: those of gcc, msvc and clang. -/
def lambdaRe : Pattern :=
  either
    (seqs [word "\x7blambda(".toList, manyLazy dot, word ")#".toList, manyOne unicode.isDecimal,
      word "\x7d".toList])
    (either
      (seqs [boundary unicode.isWord, word "lambda_".toList, times 32 (oneOf isHex),
        boundary unicode.isWord])
      (seqs [word ['$', '_'], manyOne unicode.isDecimal, boundary unicode.isWord]))

/-- `_anon_namespace_re` -/
def anonNamespaceRe : Pattern :=
  seqs [word "?A0x".toList, times 8 (oneOf isHex), word "::".toList]

end Patterns

/-! ### Scanners -/

/-- `PAIRS` -/
def pairs : Char → Option Char
  | '(' => some ')'
  | '\x7b' => some '\x7d'
  | '[' => some ']'
  | '<' => some '>'
  | _ => none

/-- What the loop of `replace_enclosed_string` keeps. -/
structure Enclosed where
  depth : ℤ
  pairStart : Option ℕ
  rv : Str

/-- A round of the loop of `replace_enclosed_string`. -/
def encloseChar (start finish : Char) (replacement : ℕ → ℕ → Except Failure Str)
    (state : Enclosed) (char : Char) (idx : ℕ) : Except Failure Enclosed :=
  if char = start then
    .ok { state with
      depth := state.depth + 1
      pairStart := if state.depth = 0 then some idx else state.pairStart }
  else if char = finish then
    if state.depth - 1 = 0 then
      match state.pairStart with
      | none => .error .assertionError
      | some pairStart => do
        let replaced ← replacement pairStart idx
        .ok { state with depth := state.depth - 1, rv := state.rv ++ replaced }
    else .ok { state with depth := state.depth - 1 }
  else if state.depth = 0 then .ok { state with rv := state.rv ++ [char] }
  else .ok state

theorem slice_length_lt {s : Str} {c : Char} (h : c ∈ s) (start stop : ℕ) :
    (slice s (start + 1) stop).length < s.length := by
  have hpos : 0 < s.length := length_pos_of_mem h
  rw [slice, length_take, length_drop]
  omega

/-- `replace_enclosed_string`; what a pair encloses is shorter than the text. -/
def replaceEnclosedString (s : Str) (start finish : Char)
    (replacement : (value : Str) → value.length < s.length → ℕ → Except Failure Str) :
    Except Failure Str :=
  if h : start ∈ s then do
    let state ← s.zipIdx.foldlM
      (fun state (char, idx) ↦ encloseChar start finish
        (fun pairStart idx ↦
          replacement (slice s (pairStart + 1) idx) (slice_length_lt h pairStart idx) pairStart)
        state char idx)
      ⟨0, none, []⟩
    .ok state.rv
  else .ok s

/-- What the loop of `split_func_tokens` keeps, the innermost bracket first. -/
structure Tokens where
  buf : List Str
  rv : List (List Str)
  stack : List Char
  «end» : ℕ

/-- A round of the loop of `split_func_tokens`. -/
def splitChar (s : Str) (state : Tokens) (char : Char) (idx : ℕ) : Tokens :=
  match pairs char with
  | some closing => { state with stack := closing :: state.stack }
  | none =>
    if state.stack.head? = some char then
      if state.stack.tail = [] then
        { state with
          stack := state.stack.tail
          buf := state.buf ++ [slice s state.end (idx + 1)]
          «end» := idx + 1 }
      else { state with stack := state.stack.tail }
    else if state.stack = [] then
      if isSpace char then
        { state with
          rv := if state.buf ≠ [] then state.rv ++ [state.buf] else state.rv
          buf := []
          «end» := idx + 1 }
      else { state with buf := state.buf ++ [slice s state.end (idx + 1)], «end» := idx + 1 }
    else state

/-- `split_func_tokens` -/
def splitFuncTokens (s : Str) : List Str :=
  let state := s.zipIdx.foldl (fun state (char, idx) ↦ splitChar s state char idx) ⟨[], [], [], 0⟩
  let rv := if state.buf ≠ [] then state.rv ++ [state.buf] else state.rv
  rv.map List.flatten

/-! ### Native function names -/

/-- `process_brackets`: a `[clone .foo]` annotation is removed. -/
def processBrackets (value : Str) : Str :=
  if "clone .".toList <+: value then [] else "[".toList ++ value ++ "]".toList

/-- `process_args` -/
def processArgs (value : Str) : Str :=
  if strip value ∈ ["anonymous namespace".toList, "operator".toList] then
    "(".toList ++ strip value ++ ")".toList
  else []

section Native

variable (unicode : Unicode)

/-- `process_generics`; the generics with which the text starts are those of a trait of Rust. -/
def processGenerics (value : Str) (start : ℕ) : Except Failure Str :=
  if value = "lambda".toList ∨ startsWith (lambdaRe unicode) value then
    .ok ("<".toList ++ value ++ ">".toList)
  else if 0 < start then .ok "<T>".toList
  else do
    let value ← replaceEnclosedString (sub rustBlanketRe [] value) '<' '>'
      fun inner _ start ↦ processGenerics inner start
    .ok (beforeFirst " as ".toList value)
termination_by value.length
decreasing_by exact Nat.lt_of_lt_of_le ‹_› (length_sub_nil_le rustBlanketRe _)

theorem cppTrailerRe_nil (before : List Char) : cppTrailerRe unicode ⟨before, []⟩ = [] := by
  show (List.flatMap textEnd
    ((List.flatMap (seqs [word "const".toList, boundary unicode.isWord])
      (boundary unicode.isWord ⟨before, []⟩)) ++ [])) = []
  rw [boundary]
  split <;> rfl

def chopTrailers (function : Str) : Str :=
  match _ : search (cppTrailerRe unicode) function with
  | none => function
  | some (found, _) => chopTrailers (rstrip (function.take found.before.length))
termination_by function.length
decreasing_by
  calc (rstrip (function.take found.before.length)).length
      ≤ (function.take found.before.length).length :=
        ( rdropWhile_prefix isSpace (l := _)).length_le
    _ ≤ found.before.length := length_take_le _ _
    _ < function.length := search_length_lt (cppTrailerRe_nil unicode) ‹_›

def hideOperators (function : Str) : Str :=
  [("operator<<", "operator⟨⟨"), ("operator<", "operator⟨"), ("operator()", "operator◯"),
    ("operator->", "operator⟿"), (" -> ", " ⟿ "),
    ("`anonymous namespace'", "〔anonymousnamespace〕")].foldl
    (fun function (old, new) ↦ replaceAll old.toList new.toList function) function

def showOperators (function : Str) : Str :=
  [("⟨", "<"), ("◯", "()"), ("⟿", "->"), ("〔anonymousnamespace〕", "`anonymous namespace'")].foldl
    (fun function (old, new) ↦ replaceAll old.toList new.toList function) function

def normalizeNames (function : Str) : Str :=
  sub anonNamespaceRe "〔anonymousnamespace〕::".toList
    (sub (lambdaRe unicode) "lambda".toList function)

def normalizeSyntax (normalizeLambdas : Bool) (function : Str) : Str :=
  let function := hideOperators (chopTrailers unicode (rstrip function))
  if normalizeLambdas then normalizeNames unicode function else function

def prepareFunction (normalizeLambdas : Bool) (function : Str) : Except Failure Str := do
  let function ← replaceEnclosedString function '[' ']' fun value _ _ ↦ .ok (processBrackets value)
  let function ← replaceEnclosedString (normalizeSyntax unicode normalizeLambdas function) '(' ')'
    fun value _ _ ↦ .ok (processArgs value)
  replaceEnclosedString function '<' '>' fun value _ start ↦ processGenerics unicode value start

end Native

def joinGenerics (tokens : List Str) : List Str :=
  if 1 < tokens.length ∧ tokens.getLast? = some "<T>".toList then
    tokens.dropLast.dropLast ++ (tokens.dropLast.getLast?.map (· ++ " <T>".toList)).toList
  else tokens

/-- `len(tokens) - 1 - tokens[::-1].index(token)` -/
def lastIndex (tokens : List Str) (token : Str) : Except Failure ℤ :=
  match tokens.reverse.idxOf? token with
  | none => .error .valueError
  | some index => .ok (tokens.length - 1 - index)

/-- `tokens[index]` -/
def item (tokens : List Str) (index : ℤ) : Except Failure Str :=
  let fromStart := if index < 0 then index + tokens.length else index
  if fromStart < 0 then .error .indexError
  else
    match tokens[fromStart.toNat]? with
    | none => .error .indexError
    | some token => .ok token

def initializationMarker : Str := "initialization expression of".toList

/-- The token after an `of`, or after the `static` there. -/
def objectToken (tokens : List Str) (ofIndex : ℤ) : Except Failure Str := do
  let funcToken ← item tokens (ofIndex + 1)
  if funcToken = "static".toList then item tokens (ofIndex + 2) else .ok funcToken

/-- The initializer expression of what stands after the last `of`. -/
def initializerToken (tokens : List Str) : Except Failure Str := do
  let lastOfIndex ← lastIndex tokens "of".toList
  let funcToken ← objectToken tokens lastOfIndex
  let funcToken := if ":".toList <+: funcToken then funcToken.drop 1 else funcToken
  .ok ("initializer expression of ".toList ++ funcToken)

/-- The token before the last arrow, or before the `throws` there. -/
def arrowToken (tokens : List Str) : Except Failure Str := do
  let lastArrowIndex ← lastIndex tokens "⟿".toList
  let funcToken ← item tokens (lastArrowIndex - 1)
  if funcToken = "throws".toList then item tokens (lastArrowIndex - 2) else .ok funcToken

/-- `except (ValueError, IndexError)` -/
def catching {α : Type} (body handler : Except Failure α) : Except Failure α :=
  match body with
  | .error .valueError => handler
  | .error .indexError => handler
  | result => result

def findFuncToken (function : Str) (tokens : List Str) : Except Failure (Option Str) :=
  if initializationMarker <:+: function then (initializerToken tokens).map some
  else if tokens ≠ [] then (catching (arrowToken tokens) (item tokens (-1))).map some
  else .ok none

def describeToken (function : Str) (tokens : List Str) (platform : Option Str)
    (funcToken : Str) : Str :=
  if "@".toList <+: funcToken ∧ platform ∈ [some "cocoa".toList, some "swift".toList] then
    (if "thunk for ".toList <:+: function then "thunk for ".toList else []) ++ "closure".toList
  else if "closure".toList ∈ tokens ∧ funcToken ≠ "closure".toList then
    "closure in ".toList ++ funcToken
  else funcToken

def dropMarkers (function : Str) : Str :=
  subWindeclHash (sub gnuVersion [] (sub rustHash [] function))

def isRedacted (function : Str) : Bool :=
  function ∈ ["<redacted>".toList, "<unknown>".toList]

def isObjc (function : Str) : Bool :=
  ["[".toList, "+[".toList, "-[".toList].any (· <+: function)

/-- `trim_native_function_name` -/
def trimNativeFunctionName (unicode : Unicode) (function : Str) (platform : Option Str)
    (normalizeLambdas : Bool) : Except Failure Str :=
  if isRedacted function then .ok function
  else if isObjc (strip function) then .ok (strip function)
  else do
    let prepared ← prepareFunction unicode normalizeLambdas (strip function)
    let tokens := joinGenerics (splitFuncTokens prepared)
    let funcToken ← findFuncToken prepared tokens
    match funcToken with
    | some (head :: tail) =>
      .ok (dropMarkers (showOperators (describeToken prepared tokens platform (head :: tail))))
    | _ => .ok (dropMarkers function)

/-- `trim_csharp_function_name` -/
def trimCsharpFunctionName (function : Str) : Str := beforeFirst " (".toList function

/-- `trim_function_name` -/
def trimFunctionName (unicode : Unicode) (function : Str) (platform : Option Str)
    (normalizeLambdas : Bool) : Except Failure Str :=
  if platform = some "csharp".toList then .ok (trimCsharpFunctionName function)
  else
    match getBehaviorFamilyForPlatform platform with
    | .native => trimNativeFunctionName unicode function platform normalizeLambdas
    | _ => .ok function

/-! ### Frames -/

/-- `_update_frame` -/
def updateFrame (unicode : Unicode) (platform : Option Str) (frame : FrameData) :
    Except Failure FrameData :=
  let frame := frame.restoreInApp
  match frame.rawFunction, orElse frame.function none with
  | none, some rawFunc => do
    let functionName ← trimFunctionName unicode rawFunc (orElse frame.platform platform) true
    if functionName ≠ rawFunc then
      .ok { frame with rawFunction := some rawFunc, function := some functionName }
    else .ok frame
  | _, _ => .ok frame

/-- The loop over the frames of an event in `normalize_stacktraces_for_grouping`. -/
def updateFrames (unicode : Unicode) (platform : Option Str) (frames : List FrameData) :
    Except Failure (List FrameData) :=
  frames.mapM (updateFrame unicode platform)

/-! ### The scanners do not raise -/

theorem exists_bind_ok_iff {α β : Type} {body : Except Failure α} {next : α → Except Failure β}
    (hnext : ∀ a, ∃ b, next a = .ok b) : (∃ b, (body >>= next) = .ok b) ↔ ∃ a, body = .ok a := by
  cases body with
  | ok a => exact iff_of_true (hnext a) ⟨a, rfl⟩
  | error failure => exact iff_of_false nofun nofun

theorem foldlM_ok {α σ : Type} {I : σ → Prop} {f : σ → α → Except Failure σ}
    (hf : ∀ state a, I state → ∃ next, f state a = .ok next ∧ I next) (list : List α)
    {state : σ} (hstate : I state) : ∃ last, list.foldlM f state = .ok last := by
  induction list generalizing state with
  | nil => exact ⟨state, rfl⟩
  | cons a list ih =>
    obtain ⟨next, hnext, hinv⟩ := hf state a hstate
    obtain ⟨last, hlast⟩ := ih hinv
    refine ⟨last, ?_⟩
    rw [foldlM_cons, hnext]
    exact hlast

def Enclosed.Opened (state : Enclosed) : Prop := 0 < state.depth → state.pairStart ≠ none

theorem encloseChar_ok {start finish : Char} {replacement : ℕ → ℕ → Except Failure Str}
    (hreplacement : ∀ pairStart idx, ∃ replaced, replacement pairStart idx = .ok replaced)
    {state : Enclosed} (hstate : state.Opened) (char : Char) (idx : ℕ) :
    ∃ next, encloseChar start finish replacement state char idx = .ok next ∧ next.Opened := by
  rw [encloseChar]
  by_cases hstart : char = start
  · refine ⟨_, if_pos hstart, fun hdepth ↦ ?_⟩
    by_cases hzero : state.depth = 0
    · rw [if_pos hzero]
      exact some_ne_none idx
    · rw [if_neg hzero]
      replace hdepth : 0 < state.depth + 1 := hdepth
      exact hstate (by omega)
  rw [if_neg hstart]
  by_cases hfinish : char = finish
  · rw [if_pos hfinish]
    by_cases hone : state.depth - 1 = 0
    · rw [if_pos hone]
      cases hpair : state.pairStart with
      | none => exact absurd hpair (hstate (by omega))
      | some pairStart =>
        obtain ⟨replaced, hreplaced⟩ := hreplacement pairStart idx
        simp only [hreplaced]
        exact ⟨_, rfl, fun _ ↦ some_ne_none pairStart⟩
    · rw [if_neg hone]
      refine ⟨_, rfl, fun hdepth ↦ hstate ?_⟩
      replace hdepth : 0 < state.depth - 1 := hdepth
      omega
  · rw [if_neg hfinish]
    by_cases hzero : state.depth = 0
    · exact ⟨_, if_pos hzero, hstate⟩
    · exact ⟨_, if_neg hzero, hstate⟩

theorem replaceEnclosedString_ok (s : Str) (start finish : Char)
    {replacement : (value : Str) → value.length < s.length → ℕ → Except Failure Str}
    (hreplacement : ∀ value h pairStart, ∃ replaced, replacement value h pairStart = .ok replaced) :
    ∃ replaced, replaceEnclosedString s start finish replacement = .ok replaced := by
  rw [replaceEnclosedString]
  by_cases h : start ∈ s
  · rw [dif_pos h]
    have hinit : Enclosed.Opened ⟨0, none, []⟩ := fun hdepth ↦ absurd hdepth (by decide)
    obtain ⟨last, hlast⟩ := foldlM_ok (I := Enclosed.Opened)
      (f := fun state (charIdx : Char × ℕ) ↦ encloseChar start finish
        (fun pairStart idx ↦
          replacement (slice s (pairStart + 1) idx) (slice_length_lt h pairStart idx) pairStart)
        state charIdx.1 charIdx.2)
      (fun state charIdx hstate ↦ encloseChar_ok (fun _ _ ↦ hreplacement _ _ _) hstate _ _)
      s.zipIdx hinit
    exact ⟨last.rv, congrArg (· >>= fun state ↦ Except.ok state.rv) hlast⟩
  · exact ⟨s, dif_neg h⟩

section Native

variable (unicode : Unicode)

theorem processGenerics_ok (value : Str) (start : ℕ) :
    ∃ replaced, processGenerics unicode value start = .ok replaced := by
  rw [processGenerics]
  split_ifs
  · exact ⟨_, rfl⟩
  · exact ⟨_, rfl⟩
  · obtain ⟨replaced, hreplaced⟩ :=
      replaceEnclosedString_ok (sub rustBlanketRe [] value) '<' '>'
        fun inner _ start ↦ processGenerics_ok inner start
    exact ⟨_, congrArg (· >>= fun value ↦ Except.ok (beforeFirst " as ".toList value)) hreplaced⟩
termination_by value.length
decreasing_by exact Nat.lt_of_lt_of_le ‹_› (length_sub_nil_le rustBlanketRe _)

theorem prepareFunction_ok (normalizeLambdas : Bool) (function : Str) :
    ∃ prepared, prepareFunction unicode normalizeLambdas function = .ok prepared := by
  obtain ⟨first, hfirst⟩ := replaceEnclosedString_ok function '[' ']'
    fun value _ _ ↦ ⟨processBrackets value, rfl⟩
  obtain ⟨second, hsecond⟩ :=
    replaceEnclosedString_ok (normalizeSyntax unicode normalizeLambdas first) '(' ')'
      fun value _ _ ↦ ⟨processArgs value, rfl⟩
  obtain ⟨third, hthird⟩ := replaceEnclosedString_ok second '<' '>'
    fun value _ start ↦ processGenerics_ok unicode value start
  refine ⟨third, ?_⟩
  rw [prepareFunction, hfirst]
  show (replaceEnclosedString (normalizeSyntax unicode normalizeLambdas first) '(' ')' _ >>= _) = _
  rw [hsecond]
  exact hthird

end Native

/-! ### The token that names a function -/

theorem item_append (before after : List Str) (index : ℕ) :
    item (before ++ after) (before.length + index) =
      match after[index]? with
      | none => .error .indexError
      | some token => .ok token := by
  have hnonneg : ¬ ((before.length + index : ℤ) < 0) := by omega
  have hindex : (before.length + index : ℤ).toNat = before.length + index := by omega
  rw [item]
  simp only [if_neg hnonneg, hindex]
  rw [getElem?_append_right (Nat.le_add_right _ _), Nat.add_sub_cancel_left]

/-- `tokens[-1]` -/
theorem item_neg_one {tokens : List Str} (h : tokens ≠ []) :
    ∃ token, item tokens (-1) = .ok token := by
  have hpos : 0 < tokens.length := length_pos_iff.mpr h
  refine ⟨tokens[tokens.length - 1], ?_⟩
  have hindex : (-1 + tokens.length : ℤ).toNat = tokens.length - 1 := by omega
  have hnonneg : ¬ ((-1 + tokens.length : ℤ) < 0) := by omega
  rw [item]
  simp only [if_pos (show (-1 : ℤ) < 0 by decide), if_neg hnonneg, hindex]
  rw [getElem?_eq_getElem (by omega)]

def Caught {α : Type} (body : Except Failure α) : Prop := body ≠ .error .assertionError

theorem Caught.bind {α β : Type} {body : Except Failure α} {next : α → Except Failure β}
    (hbody : Caught body) (hnext : ∀ a, Caught (next a)) : Caught (body >>= next) := by
  cases body with
  | ok a => exact hnext a
  | error failure => exact fun h ↦ hbody (congrArg Except.error (Except.error.inj h))

theorem caught_ok {α : Type} (a : α) : Caught (.ok a : Except Failure α) := nofun

theorem caught_item (tokens : List Str) (index : ℤ) : Caught (item tokens index) := by
  rw [item]
  split_ifs
  all_goals try split
  all_goals nofun

theorem caught_lastIndex (tokens : List Str) (token : Str) : Caught (lastIndex tokens token) := by
  rw [lastIndex]
  split <;> nofun

theorem caught_arrowToken (tokens : List Str) : Caught (arrowToken tokens) := by
  apply (caught_lastIndex _ _).bind
  intro lastArrowIndex
  apply (caught_item _ _).bind
  intro funcToken
  split_ifs
  · exact caught_item _ _
  · exact caught_ok funcToken

theorem catching_ok {α : Type} {body handler : Except Failure α} {value : α} (hbody : Caught body)
    (hhandler : handler = .ok value) : ∃ result, catching body handler = .ok result := by
  cases body with
  | ok result => exact ⟨result, rfl⟩
  | error failure =>
    cases failure with
    | assertionError => exact absurd rfl hbody
    | valueError | indexError => exact ⟨value, hhandler⟩

/-- After the last `of` there is a token for the object, after a `static` if that comes first. -/
def NamesObject (tokens : List Str) : Prop :=
  ∃ before after, tokens = before ++ "of".toList :: after ∧ "of".toList ∉ after ∧ after ≠ [] ∧
    after ≠ ["static".toList]

theorem idxOf?_append_cons {token : Str} {before : List Str} (after : List Str)
    (h : token ∉ before) : (before ++ token :: after).idxOf? token = some before.length := by
  induction before with
  | nil => rw [nil_append, idxOf?_cons, if_pos (beq_self_eq_true token), length_nil]
  | cons other before ih =>
    have hother : ¬ (other == token) = true :=
      fun heq ↦ h (LawfulBEq.eq_of_beq heq ▸ mem_cons_self)
    rw [cons_append, idxOf?_cons, if_neg hother, ih fun hbefore ↦ h (mem_cons_of_mem other hbefore)]
    rfl

theorem lastIndex_append {token : Str} (before : List Str) {after : List Str} (h : token ∉ after) :
    lastIndex (before ++ token :: after) token = .ok before.length := by
  have hindex : (before ++ token :: after).reverse.idxOf? token = some after.length := by
    rw [reverse_append, reverse_cons, append_assoc, singleton_append]
    rw [idxOf?_append_cons _ (mem_reverse.not.mpr h), length_reverse]
  have hlength : (((before ++ token :: after).length : ℤ) - 1 - after.length) = before.length := by
    rw [length_append, length_cons]
    omega
  rw [lastIndex, hindex]
  exact congrArg Except.ok hlength

theorem lastIndex_of_not_mem {token : Str} {tokens : List Str} (h : token ∉ tokens) :
    lastIndex tokens token = .error .valueError := by
  rw [lastIndex, idxOf?_eq_none_iff.mpr (mem_reverse.not.mpr h)]

/-- After an `of`, the token is looked up in what is left. -/
theorem objectToken_append (before after : List Str) :
    (∃ token, objectToken (before ++ "of".toList :: after) before.length = .ok token) ↔
      after ≠ [] ∧ after ≠ ["static".toList] := by
  have hitem (index : ℕ) : item (before ++ "of".toList :: after) (before.length + (index + 1 : ℕ)) =
      match after[index]? with
      | none => .error .indexError
      | some token => .ok token := item_append before ("of".toList :: after) (index + 1)
  have hfirst : item (before ++ "of".toList :: after) (before.length + 1) = _ := hitem 0
  have hsecond : item (before ++ "of".toList :: after) (before.length + 2) = _ := hitem 1
  rw [objectToken, hfirst, hsecond]
  cases after with
  | nil => exact iff_of_false nofun fun h ↦ h.1 rfl
  | cons funcToken after =>
    show (∃ token, (if funcToken = "static".toList then _ else Except.ok funcToken) =
      Except.ok token) ↔ _
    by_cases hstatic : funcToken = "static".toList
    · rw [if_pos hstatic]
      cases after with
      | nil => exact iff_of_false nofun fun h ↦ h.2 (by rw [hstatic])
      | cons object after =>
        exact iff_of_true ⟨object, rfl⟩ ⟨cons_ne_nil _ _, by simp⟩
    · rw [if_neg hstatic]
      exact iff_of_true ⟨funcToken, rfl⟩
        ⟨cons_ne_nil _ _, fun h ↦ hstatic (List.cons.inj h).1⟩

theorem initializerToken_append (before : List Str) {after : List Str} (h : "of".toList ∉ after) :
    (∃ token, initializerToken (before ++ "of".toList :: after) = .ok token) ↔
      after ≠ [] ∧ after ≠ ["static".toList] := by
  rw [← objectToken_append before after, initializerToken, lastIndex_append before h]
  exact exists_bind_ok_iff fun _ ↦ ⟨_, rfl⟩

theorem initializerToken_ok_iff (tokens : List Str) :
    (∃ token, initializerToken tokens = .ok token) ↔ NamesObject tokens := by
  by_cases hof : "of".toList ∈ tokens
  · obtain ⟨after, before, hreverse, hafter⟩ :=
      eq_append_cons_of_mem (mem_reverse.mpr hof)
    have htokens : tokens = before.reverse ++ "of".toList :: after.reverse := by
      rw [← reverse_reverse tokens, hreverse]
      simp
    have hlast : "of".toList ∉ after.reverse := mem_reverse.not.mpr hafter
    rw [htokens, initializerToken_append before.reverse hlast]
    constructor
    · intro h
      exact ⟨before.reverse, after.reverse, rfl, hlast, h⟩
    · rintro ⟨other, rest, heq, hrest, h⟩
      rw [← initializerToken_append other hrest, ← heq] at h
      exact (initializerToken_append before.reverse hlast).mp h
  · constructor
    · rintro ⟨token, htoken⟩
      rw [initializerToken, lastIndex_of_not_mem hof] at htoken
      cases htoken
    · rintro ⟨before, after, heq, -⟩
      exact absurd (heq ▸ mem_append_right _ mem_cons_self) hof

theorem findFuncToken_ok_iff (function : Str) (tokens : List Str) :
    (∃ funcToken, findFuncToken function tokens = .ok funcToken) ↔
      (initializationMarker <:+: function → NamesObject tokens) := by
  rw [findFuncToken]
  by_cases hmarker : initializationMarker <:+: function
  · rw [if_pos hmarker, forall_prop_of_true hmarker, ← initializerToken_ok_iff]
    cases initializerToken tokens with
    | ok token => exact iff_of_true ⟨some token, rfl⟩ ⟨token, rfl⟩
    | error failure => exact iff_of_false nofun nofun
  · rw [if_neg hmarker]
    refine iff_of_true ?_ fun h ↦ absurd h hmarker
    by_cases hempty : tokens ≠ []
    · rw [if_pos hempty]
      obtain ⟨last, hlast⟩ := item_neg_one hempty
      obtain ⟨token, htoken⟩ := catching_ok (caught_arrowToken tokens) hlast
      exact ⟨some token, congrArg (Except.map some) htoken⟩
    · exact ⟨none, if_neg hempty⟩

/-! ### Functions that can be trimmed -/

/-- The prepared name, which there always is (`prepareFunction_eq`). -/
def signature (unicode : Unicode) (normalizeLambdas : Bool) (function : Str) : Str :=
  (prepareFunction unicode normalizeLambdas (strip function)).toOption.getD []

theorem prepareFunction_eq (unicode : Unicode) (normalizeLambdas : Bool) (function : Str) :
    prepareFunction unicode normalizeLambdas (strip function) =
      .ok (signature unicode normalizeLambdas function) := by
  obtain ⟨prepared, hprepared⟩ := prepareFunction_ok unicode normalizeLambdas (strip function)
  rw [signature, hprepared]
  rfl

/-- The name is kept as it is, or its signature is not that of an initialization expression, or it
names the object of one. -/
def Trimmable (unicode : Unicode) (normalizeLambdas : Bool) (function : Str) : Prop :=
  isRedacted function ∨ isObjc (strip function) ∨
    (initializationMarker <:+: signature unicode normalizeLambdas function →
      NamesObject (joinGenerics (splitFuncTokens (signature unicode normalizeLambdas function))))

theorem trimNativeFunctionName_ok_iff (unicode : Unicode) (function : Str)
    (platform : Option Str) (normalizeLambdas : Bool) :
    (∃ name, trimNativeFunctionName unicode function platform normalizeLambdas = .ok name) ↔
      Trimmable unicode normalizeLambdas function := by
  rw [trimNativeFunctionName, Trimmable]
  by_cases hredacted : isRedacted function
  · exact iff_of_true ⟨function, if_pos hredacted⟩ (Or.inl hredacted)
  by_cases hobjc : isObjc (strip function)
  · rw [if_neg hredacted, if_pos hobjc]
    exact iff_of_true ⟨_, rfl⟩ (Or.inr (Or.inl hobjc))
  rw [if_neg hredacted, if_neg hobjc, prepareFunction_eq, or_iff_right hredacted,
    or_iff_right hobjc, ← findFuncToken_ok_iff]
  show (∃ name, (findFuncToken _ _ >>= _) = Except.ok name) ↔ _
  refine exists_bind_ok_iff fun funcToken ↦ ?_
  match funcToken with
  | none => exact ⟨_, rfl⟩
  | some [] => exact ⟨_, rfl⟩
  | some (head :: tail) => exact ⟨_, rfl⟩

theorem trimFunctionName_ok_iff (unicode : Unicode) (function : Str) (platform : Option Str)
    (normalizeLambdas : Bool) :
    (∃ name, trimFunctionName unicode function platform normalizeLambdas = .ok name) ↔
      (getBehaviorFamilyForPlatform platform = .native →
        Trimmable unicode normalizeLambdas function) := by
  rw [trimFunctionName]
  by_cases hcsharp : platform = some "csharp".toList
  · rw [if_pos hcsharp, hcsharp]
    exact iff_of_true ⟨_, rfl⟩ nofun
  rw [if_neg hcsharp, ← trimNativeFunctionName_ok_iff unicode function platform]
  cases getBehaviorFamilyForPlatform platform with
  | native => exact ⟨fun h _ ↦ h, fun h ↦ h rfl⟩
  | javascript | other => exact iff_of_true ⟨function, rfl⟩ nofun

/-- The function that is trimmed in a native frame. -/
def FrameData.TrimsNative (platform : Option Str) (frame : FrameData) (function : Str) : Prop :=
  frame.rawFunction = none ∧ orElse frame.function none = some function ∧
    getBehaviorFamilyForPlatform (orElse frame.platform platform) = .native

theorem updateFrame_ok_iff (unicode : Unicode) (platform : Option Str) (frame : FrameData) :
    (∃ updated, updateFrame unicode platform frame = .ok updated) ↔
      ∀ function, frame.TrimsNative platform function → Trimmable unicode true function := by
  have hrestored : frame.restoreInApp.rawFunction = frame.rawFunction ∧
      frame.restoreInApp.function = frame.function ∧
      frame.restoreInApp.platform = frame.platform := by
    rw [FrameData.restoreInApp]
    cases frame.origInApp <;> exact ⟨rfl, rfl, rfl⟩
  obtain ⟨hraw, hfunction, hplatform⟩ := hrestored
  simp only [FrameData.TrimsNative]
  rw [updateFrame, ← hraw, ← hfunction, ← hplatform]
  generalize frame.restoreInApp = frame
  cases frame.rawFunction with
  | some rawFunction => exact iff_of_true ⟨frame, rfl⟩ fun _ h ↦ absurd h.1 (some_ne_none _)
  | none =>
    cases orElse frame.function none with
    | none => exact iff_of_true ⟨frame, rfl⟩ fun _ h ↦ absurd h.2.1.symm (some_ne_none _)
    | some rawFunc =>
      have htrim := trimFunctionName_ok_iff unicode rawFunc (orElse frame.platform platform) true
      refine Iff.trans ?_ (htrim.trans ?_)
      · refine exists_bind_ok_iff fun functionName ↦ ?_
        split
        · exact ⟨_, rfl⟩
        · exact ⟨frame, rfl⟩
      · constructor
        · rintro h function ⟨-, heq, hnative⟩
          obtain rfl : rawFunc = function := Option.some.inj heq
          exact h hnative
        · exact fun h hnative ↦ h rawFunc ⟨rfl, rfl, hnative⟩

theorem mapM_ok_iff {α β : Type} (f : α → Except Failure β) (list : List α) :
    (∃ results, list.mapM f = .ok results) ↔ ∀ a ∈ list, ∃ result, f a = .ok result := by
  induction list with
  | nil => exact iff_of_true ⟨[], rfl⟩ nofun
  | cons a list ih =>
    rw [mapM_cons, forall_mem_cons, ← ih]
    cases f a with
    | error failure => exact iff_of_false nofun (fun h ↦ nomatch h.1)
    | ok result =>
      cases list.mapM f with
      | error failure => exact iff_of_false nofun (fun h ↦ nomatch h.2)
      | ok results => exact iff_of_true ⟨_, rfl⟩ ⟨⟨result, rfl⟩, ⟨results, rfl⟩⟩

/-- A native function name is trimmed exactly if it is trimmable, and the frames of an event are
updated exactly if each function that is trimmed there is. -/
theorem trims_iff (unicode : Unicode) :
    (∀ (function : Str) (platform : Option Str) (normalizeLambdas : Bool),
      (∃ name, trimNativeFunctionName unicode function platform normalizeLambdas = .ok name) ↔
        Trimmable unicode normalizeLambdas function) ∧
    ∀ (platform : Option Str) (frames : List FrameData),
      (∃ updated, updateFrames unicode platform frames = .ok updated) ↔
        ∀ frame ∈ frames, ∀ function, frame.TrimsNative platform function →
          Trimmable unicode true function := by
  constructor
  · exact trimNativeFunctionName_ok_iff unicode
  · intro platform frames
    rw [updateFrames, mapM_ok_iff]
    exact forall₂_congr fun frame _ ↦ updateFrame_ok_iff unicode platform frame

/-! ### An initialization expression without its object -/

def ascii : Unicode := ⟨Char.isAlphanum, Char.isDigit⟩

def noObject : Str := "variable initialization expression of".toList

theorem replaceAll_eq_self {old : Str} (new : Str) {s : Str} (h : ¬ old <:+: s) :
    replaceAll old new s = s := by
  induction s with
  | nil => rw [replaceAll]
  | cons c rest ih =>
    have hnot : ¬ (old <+: c :: rest ∧ old ≠ []) := fun hprefix ↦ h hprefix.1.isInfix
    rw [replaceAll, if_neg hnot, ih fun hrest ↦ h (infix_cons hrest)]

theorem hideOperators_eq_self {function : Str}
    (h : ∀ old ∈ ["operator<<", "operator<", "operator()", "operator->", " -> ",
      "`anonymous namespace'"], ¬ old.toList <:+: function) :
    hideOperators function = function := by
  simp only [forall_mem_cons] at h
  obtain ⟨hshift, hless, hcall, harrow, hreturn, hnamespace, -⟩ := h
  simp only [hideOperators, foldl_cons, foldl_nil]
  rw [replaceAll_eq_self _ hshift, replaceAll_eq_self _ hless, replaceAll_eq_self _ hcall,
    replaceAll_eq_self _ harrow, replaceAll_eq_self _ hreturn, replaceAll_eq_self _ hnamespace]

theorem chopTrailers_eq_self {unicode : Unicode} {function : Str}
    (h : search (cppTrailerRe unicode) function = none) :
    chopTrailers unicode function = function := by
  rw [chopTrailers]
  split
  next => rfl
  next heq => exact absurd (h.symm.trans heq) nofun

theorem replaceEnclosedString_eq_self {s : Str} {start finish : Char}
    {replacement : (value : Str) → value.length < s.length → ℕ → Except Failure Str}
    (h : start ∉ s) : replaceEnclosedString s start finish replacement = .ok s :=
  dif_neg h

theorem prepareFunction_eq_self {unicode : Unicode} {normalizeLambdas : Bool} {function : Str}
    (hnormal : normalizeSyntax unicode normalizeLambdas function = function)
    (hsquare : '[' ∉ function) (hround : '(' ∉ function) (hangle : '<' ∉ function) :
    prepareFunction unicode normalizeLambdas function = .ok function := by
  rw [prepareFunction, replaceEnclosedString_eq_self hsquare]
  show (replaceEnclosedString (normalizeSyntax unicode normalizeLambdas function) '(' ')' _ >>=
    _) = _
  rw [hnormal, replaceEnclosedString_eq_self hround]
  show replaceEnclosedString function '<' '>'
    (fun value _ start ↦ processGenerics unicode value start) = _
  exact replaceEnclosedString_eq_self hangle

theorem noObject_plain : (rstrip noObject = noObject ∧ strip noObject = noObject) ∧
    (search (cppTrailerRe ascii) noObject).isNone ∧ (search (lambdaRe ascii) noObject).isNone ∧
    (search anonNamespaceRe noObject).isNone ∧
    (∀ old ∈ ["operator<<", "operator<", "operator()", "operator->", " -> ",
      "`anonymous namespace'"], ¬ old.toList <:+: noObject) ∧
    ('[' ∉ noObject ∧ '(' ∉ noObject ∧ '<' ∉ noObject) ∧
    ¬ isRedacted noObject = true ∧ ¬ isObjc (strip noObject) = true ∧
    initializationMarker <:+: noObject ∧
    joinGenerics (splitFuncTokens noObject) =
      ["variable".toList, "initialization".toList, "expression".toList] ++ ["of".toList] := by
  decide +kernel

theorem normalizeSyntax_noObject : normalizeSyntax ascii true noObject = noObject := by
  obtain ⟨⟨hstrip, -⟩, htrailer, hlambda, hanonymous, hoperators, -⟩ := noObject_plain
  rw [normalizeSyntax, hstrip, chopTrailers_eq_self (isNone_iff_eq_none.mp htrailer),
    hideOperators_eq_self hoperators]
  show normalizeNames ascii noObject = noObject
  rw [normalizeNames, sub_eq_self (isNone_iff_eq_none.mp hlambda),
    sub_eq_self (isNone_iff_eq_none.mp hanonymous)]

theorem signature_noObject : signature ascii true noObject = noObject := by
  obtain ⟨⟨-, hstrip⟩, -, -, -, -, ⟨hsquare, hround, hangle⟩, -⟩ := noObject_plain
  have hprepare := prepareFunction_eq_self normalizeSyntax_noObject hsquare hround hangle
  rw [signature, hstrip, hprepare, Except.toOption, getD_some]

/-- Trimming raises where nothing comes after the last `of`. -/
theorem not_trims : ¬ ∀ (unicode : Unicode) (function : Str) (platform : Option Str)
    (normalizeLambdas : Bool), ∃ name,
      trimNativeFunctionName unicode function platform normalizeLambdas = .ok name := by
  intro htrims
  obtain ⟨-, -, -, -, -, -, hredacted, hobjc, hmarker, htokens⟩ := noObject_plain
  have hname := htrims ascii noObject (some "swift".toList) true
  rw [trimNativeFunctionName_ok_iff, Trimmable, or_iff_right hredacted, or_iff_right hobjc,
    signature_noObject, htokens, ← initializerToken_ok_iff,
    initializerToken_append _ not_mem_nil] at hname
  exact (hname hmarker).1 rfl

end Sentry.Grouping
