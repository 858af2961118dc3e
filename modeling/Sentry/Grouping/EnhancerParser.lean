import Sentry.Grouping.EnhancementRules
import Sentry.Library.Peg
import Sentry.Library.UnicodeEscape

/-!
# Enhancement configs that fail

`grouping/enhancer/parser.py`. What the visitor raises other than `InvalidEnhancerConfig` comes out
as `VisitationError`: an unknown type of matcher is looked up before its class could refuse it, a
quoted argument is evaluated as a literal of Python, and a surrogate that is escaped is refused
where the pattern is encoded (`visitArgument_encodes_iff`). A config fails in the declared way only
if the first rule at fault has sound matchers (`parseEnhancements_declared_iff`).
-/

namespace Sentry.Grouping.Enhancer

open List
open Library Library.Repetition Library.UnicodeEscape

/-- A text by its code points, surrogates included. -/
abbrev Text := List ℕ

/-- What is used of the Python library. -/
structure PyLib where
  isSpace : ℕ → Bool
  characterNamed : Names
  text : TextFunctions

variable (py : PyLib)

def space : ℕ := ' '.toNat

def carriageReturn : ℕ := '\r'.toNat

/-! ### The tree -/

/-- What the inner of a quoted argument is made of: `[^"\\]` and `\\.`. -/
inductive Piece
  | plain (c : ℕ) (h : c ≠ doubleQuote ∧ c ≠ backslash)
  | escaped (c : ℕ)

def Piece.text : Piece → Text
  | .plain c _ => [c]
  | .escaped c => [backslash, c]

/-- `node.text[1:-1]` of a quoted argument. -/
def textOf (pieces : List Piece) : Text := pieces.flatMap Piece.text

inductive ArgumentNode
  | quoted (inner : List Piece)
  | unquoted (text : Text)

structure FrameMatcherNode where
  negated : Bool
  matcherType : Text
  argument : ArgumentNode

inductive ActionNode
  | flagAction (range : Option FlagRange) (flag : Bool) (name : FlagKey)
  | varAction (name : Text) (value : Text)

structure RuleNode where
  callerMatcher : Option FrameMatcherNode
  frameMatchers : List FrameMatcherNode
  calleeMatcher : Option FrameMatcherNode
  actions : List ActionNode

/-! ### The grammar -/

def word (text : String) : Text := codes text.toList

/-- `_` -/
def ws : Peg ℕ Text := Peg.spanning (· = space)

/-- `[a-zA-Z0-9_\.-]` -/
def isIdentChar (c : ℕ) : Bool :=
  ('a'.toNat ≤ c ∧ c ≤ 'z'.toNat) ∨ ('A'.toNat ≤ c ∧ c ≤ 'Z'.toNat) ∨
    ('0'.toNat ≤ c ∧ c ≤ '9'.toNat) ∨ c ∈ word "_.-"

def ident : Peg ℕ Text := Peg.spanning1 isIdentChar

/-- `\"([a-zA-Z0-9_\.:-]+)\"` -/
def quotedIdent : Peg ℕ Text := do
  let quote ← Peg.literal [doubleQuote]
  let inner ← Peg.spanning1 fun c ↦ isIdentChar c || c = ':'.toNat
  let quote' ← Peg.literal [doubleQuote]
  return quote ++ inner ++ quote'

/-- `matcher_type`, whose visitor gives the text of the node. -/
def matcherType : Peg ℕ Text := ident <|> quotedIdent

def plainPiece : Peg ℕ Piece
  | [] => none
  | c :: rest => if h : c ≠ doubleQuote ∧ c ≠ backslash then some (.plain c h, rest) else none

def escapedPiece : Peg ℕ Piece := do
  let _ ← Peg.literal [backslash]
  Piece.escaped <$> Peg.satisfy (· ≠ newline)

/-- `"([^"\\]*(?:\\.[^"\\]*)*)"` -/
def quoted : Peg ℕ (List Piece) := do
  let _ ← Peg.literal [doubleQuote]
  let inner ← Peg.star (plainPiece <|> escapedPiece)
  let _ ← Peg.literal [doubleQuote]
  return inner

/-- `\S+` -/
def unquoted : Peg ℕ Text := Peg.spanning1 (!py.isSpace ·)

def argument : Peg ℕ ArgumentNode := ArgumentNode.quoted <$> quoted <|>
  ArgumentNode.unquoted <$> unquoted py

def frameMatcher : Peg ℕ FrameMatcherNode := do
  let _ ← ws
  let negation ← Peg.opt (Peg.literal (word "!"))
  let type ← matcherType
  let _ ← Peg.literal (word ":")
  let argument ← argument py
  return ⟨negation.isSome, type, argument⟩

def callerMatcher : Peg ℕ FrameMatcherNode := do
  let _ ← ws
  let _ ← Peg.literal (word "[")
  let _ ← ws
  let inner ← frameMatcher py
  let _ ← ws
  let _ ← Peg.literal (word "]")
  let _ ← ws
  let _ ← Peg.literal (word "|")
  return inner

def calleeMatcher : Peg ℕ FrameMatcherNode := do
  let _ ← ws
  let _ ← Peg.literal (word "|")
  let _ ← ws
  let _ ← Peg.literal (word "[")
  let _ ← ws
  let inner ← frameMatcher py
  let _ ← ws
  let _ ← Peg.literal (word "]")
  return inner

def range : Peg ℕ FlagRange :=
  (fun _ ↦ .up) <$> Peg.literal (word "^") <|> (fun _ ↦ .down) <$> Peg.literal (word "v")

def flag : Peg ℕ Bool :=
  (fun _ ↦ true) <$> Peg.literal (word "+") <|> (fun _ ↦ false) <$> Peg.literal (word "-")

def flagActionName : Peg ℕ FlagKey :=
  (fun _ ↦ .group) <$> Peg.literal (word "group") <|> (fun _ ↦ .app) <$> Peg.literal (word "app")

def flagAction : Peg ℕ ActionNode := do
  let _ ← ws
  let range ← Peg.opt range
  let flag ← flag
  let name ← flagActionName
  return .flagAction range flag name

def varName : Peg ℕ Text :=
  Peg.literal (word "max-frames") <|> Peg.literal (word "min-frames") <|>
    Peg.literal (word "category")

def varAction : Peg ℕ ActionNode := do
  let _ ← ws
  let name ← varName
  let _ ← ws
  let _ ← Peg.literal (word "=")
  let _ ← ws
  let value ← ident
  return .varAction name value

def rule : Peg ℕ RuleNode := do
  let _ ← ws
  let caller ← Peg.opt (callerMatcher py)
  let frames ← Peg.plus (frameMatcher py)
  let callee ← Peg.opt (calleeMatcher py)
  let actions ← Peg.plus (flagAction <|> varAction)
  return ⟨caller, frames, callee, actions⟩

/-- `#[^\r\n]*` -/
def comment : Peg ℕ Unit := do
  let _ ← Peg.literal (word "#")
  let _ ← Peg.spanning fun c ↦ c ≠ carriageReturn ∧ c ≠ newline

/-- `_ (comment / rule / empty) newline?`, which ends the repetition if it takes nothing. -/
def line : Peg ℕ (Option RuleNode) := fun s ↦
  let line : Peg ℕ (Option RuleNode) := do
    let _ ← ws
    let body ← (fun _ ↦ none) <$> comment <|> some <$> rule py <|> pure none
    let _ ← Peg.opt (Peg.satisfy fun c ↦ c = carriageReturn ∨ c = newline)
    return body
  (line s).filter fun result ↦ result.2.length < s.length

/-- The rules of the tree of a config; `none` for a `ParseError`. -/
def enhancementsGrammar (s : Text) : Option (List RuleNode) :=
  match Peg.star (line py) s with
  | some (lines, []) => some (lines.filterMap id)
  | _ => none

/-! ### `unescape_string` -/

/-- What is raised within the visitor and wrapped. -/
inductive Raised
  | keyError (key : Text)
  | syntaxError
  | unicodeEncodeError

/-- `InvalidEnhancerConfig`, of a text that does not match the grammar, whose excerpt is left out,
or of a value of a variable, and `VisitationError`. -/
inductive Error
  | invalidSyntax
  | invalidValue (value var : Text)
  | visitationError (raised : Raised)

def Error.Declared : Error → Prop
  | .invalidSyntax | .invalidValue _ _ => True
  | .visitationError _ => False

def hexAhead (width : ℕ) (text : Text) : Bool :=
  (text.take width).length = width ∧ ∀ c ∈ text.take width, (hexValue c).isSome

/-- What the lookaheads of `INVALID_ESCAPE` exclude after the backslash. -/
def isEscape : Text → Bool
  | [] => false
  | c :: rest => c = 'x'.toNat && hexAhead 2 rest || c = 'u'.toNat && hexAhead 4 rest ||
      c = 'U'.toNat && hexAhead 8 rest || isOctal c || c ∈ word "\\'\"abfnrtv"

/-- `INVALID_ESCAPE.sub(r"\1\\", value)`: backslashes are taken in pairs, as one after another is an
escape, and the last of an odd number of them is doubled if it begins no escape. -/
def subInvalidEscapes : Text → Text
  | [] => []
  | [c] => if c = backslash then [c, c] else [c]
  | c :: d :: rest =>
    if c ≠ backslash then c :: subInvalidEscapes (d :: rest)
    else if d = backslash then c :: d :: subInvalidEscapes rest
    else if isEscape (d :: rest) then c :: subInvalidEscapes (d :: rest)
    else c :: c :: subInvalidEscapes (d :: rest)

def readLiteral : Text → Option (Text × Text)
  | [] => none
  | c :: rest =>
    if c = carriageReturn then
      some ([newline], if rest.head? = some newline then rest.tail else rest)
    else if c = backslash ∧ rest.head? = some carriageReturn then
      some ([], if rest.tail.head? = some newline then rest.tail.tail else rest.tail)
    else readChar py.characterNamed (c :: rest)

/-- `ast.literal_eval` of a text in three double quotes, whose o quotes are all escaped. -/
def literalEval (value : Text) : Except Raised Text :=
  if 0 ∈ value then throw .syntaxError
  else if ∃ c ∈ value, ¬c.isValidChar then throw .unicodeEncodeError
  else
    match many (readLiteral py) value with
    | (written, []) => return written.flatten
    | (_, _ :: _) => throw .syntaxError

/-- `unescape_string` -/
def unescapeString (value : Text) : Except Raised Text :=
  literalEval py (subInvalidEscapes value)

/-! ### The visitor -/

/-- `MATCHERS` -/
def matchers : List (String × MatchKey) :=
  [("stack.module", .moduleName), ("stack.abs_path", .path), ("stack.package", .package),
    ("stack.function", .function), ("error.type", .type), ("error.value", .value),
    ("error.mechanism", .mechanism), ("module", .moduleName), ("path", .path),
    ("package", .package), ("function", .function), ("type", .type), ("value", .value),
    ("mechanism", .mechanism), ("category", .category), ("family", .family), ("app", .app)]

/-- `MATCHERS.get(key)` -/
def matcherOf (key : Text) : Option MatchKey :=
  (matchers.find? fun matcher ↦ word matcher.1 = key).map Prod.snd

/-- `pattern.encode("utf-8")`, by the characters. -/
def encodeUtf8 (pattern : Text) : Except Raised Str :=
  if ∃ c ∈ pattern, ¬c.isValidChar then throw .unicodeEncodeError
  else return pattern.map Char.ofNat

/-- `FrameMatch.from_key`: the class is looked up before it could refuse the key. -/
def fromKey (key pattern : Text) (negated : Bool) : Except Raised FrameMatch :=
  match matcherOf key with
  | none => throw (.keyError key)
  | some matchKey => do
    let pattern ← encodeUtf8 pattern
    return ⟨matchKey, pattern, negated⟩

def visitArgument : ArgumentNode → Except Raised Text
  | .quoted inner => unescapeString py (textOf inner)
  | .unquoted text => return text

def visitFrameMatcher (node : FrameMatcherNode) : Except Error FrameMatch :=
  Except.mapError .visitationError do
    let argument ← visitArgument py node.argument
    fromKey node.matcherType argument node.negated

def visitAction : ActionNode → Except Error Action
  | .flagAction range flag name => return .flag name flag range
  | .varAction name value =>
    match VarAction.ofValue py.text (name.map Char.ofNat) (.text (value.map Char.ofNat)) with
    | some action => return .var action
    | none => throw (.invalidValue value name)

def visitRule (node : RuleNode) : Except Error Rule := do
  let caller ← node.callerMatcher.toList.mapM (visitFrameMatcher py)
  let frames ← node.frameMatchers.mapM (visitFrameMatcher py)
  let callee ← node.calleeMatcher.toList.mapM (visitFrameMatcher py)
  let actions ← node.actions.mapM (visitAction py)
  return ⟨caller.map (.caller ∘ .frame) ++ frames.map .frame ++ callee.map (.callee ∘ .frame),
    actions⟩

/-- `parse_enhancements` -/
def parseEnhancements (s : Text) : Except Error (List Rule) :=
  match enhancementsGrammar py s with
  | none => throw .invalidSyntax
  | some nodes => nodes.mapM (visitRule py)

/-! ### Escapes -/

def codeOf (width : ℕ) (text : Text) : ℕ :=
  ((text.take width).filterMap hexValue).foldl (fun value digit ↦ value * 16 + digit) 0

/-- The code points that `\u` and `\U` write. -/
def codeEscapes : List Piece → List ℕ
  | [] => []
  | .plain _ _ :: rest => codeEscapes rest
  | .escaped c :: rest =>
    (if c = 'u'.toNat && hexAhead 4 (textOf rest) then [codeOf 4 (textOf rest)]
      else if c = 'U'.toNat && hexAhead 8 (textOf rest) then [codeOf 8 (textOf rest)] else []) ++
    codeEscapes rest

/-- A quoted argument has no null character and no surrogate, not as an escape either, and no escape
of more than `10ffff`; an unquoted one has no surrogate. -/
def ArgumentNode.Sound : ArgumentNode → Prop
  | .quoted inner => (∀ c ∈ textOf inner, c ≠ 0 ∧ c.isValidChar) ∧
      ∀ c ∈ codeEscapes inner, c.isValidChar
  | .unquoted text => ∀ c ∈ text, c.isValidChar

variable {py} {c : ℕ} {t text : Text} {pieces rest : List Piece}

theorem subInvalidEscapes_cons (hc : c ≠ backslash) (t : Text) :
    subInvalidEscapes (c :: t) = c :: subInvalidEscapes t := by
  cases t with
  | nil => simp [subInvalidEscapes, hc]
  | cons d t => rw [subInvalidEscapes, if_pos hc]

theorem subInvalidEscapes_append {read : Text} (hread : ∀ c ∈ read, c ≠ backslash) (t : Text) :
    subInvalidEscapes (read ++ t) = read ++ subInvalidEscapes t := by
  induction read with
  | nil => rfl
  | cons c read ih =>
    rw [forall_mem_cons] at hread
    rw [cons_append, subInvalidEscapes_cons hread.1, ih hread.2, cons_append]

theorem drop_pieces {n : ℕ} (hn : n ≤ (textOf pieces).length)
    (hplain : ∀ c ∈ (textOf pieces).take n, c ≠ backslash) :
    textOf (pieces.drop n) = (textOf pieces).drop n ∧
      codeEscapes (pieces.drop n) = codeEscapes pieces := by
  induction n generalizing pieces with
  | zero => exact ⟨rfl, rfl⟩
  | succ n ih =>
    match pieces with
    | [] => exact absurd hn (Nat.not_succ_le_zero n)
    | .escaped c :: rest => exact absurd rfl (hplain backslash mem_cons_self)
    | .plain c h :: rest =>
      change ∀ d ∈ c :: (textOf rest).take n, d ≠ backslash at hplain
      rw [forall_mem_cons] at hplain
      exact ih (Nat.le_of_succ_le_succ hn) hplain.2

theorem hexValue_eq_some {v : ℕ} (h : hexValue c = some v) : v < 16 ∧ c ≠ backslash := by
  unfold hexValue at h
  have hbackslash : backslash = 92 := rfl
  simp only [show '0'.toNat = 48 from rfl, show '9'.toNat = 57 from rfl,
    show 'a'.toNat = 97 from rfl, show 'f'.toNat = 102 from rfl, show 'A'.toNat = 65 from rfl,
    show 'F'.toNat = 70 from rfl] at h
  split_ifs at h with hdigit hlower hupper
  all_goals
    obtain rfl := Option.some.inj h
    omega

theorem mapM_hexValue (h : ∀ c ∈ text, (hexValue c).isSome) :
    text.mapM hexValue = some (text.filterMap hexValue) := by
  induction text with
  | nil => rfl
  | cons c text ih =>
    rw [forall_mem_cons] at h
    obtain ⟨v, hv⟩ := Option.isSome_iff_exists.mp h.1
    rw [mapM_cons, hv, ih h.2, filterMap_cons_some hv]
    rfl

theorem foldl_lt {base : ℕ} {digits : List ℕ} (h : ∀ d ∈ digits, d < base) (value : ℕ) :
    digits.foldl (fun value digit ↦ value * base + digit) value <
      (value + 1) * base ^ digits.length := by
  induction digits generalizing value with
  | nil => simp
  | cons d digits ih =>
    rw [forall_mem_cons] at h
    calc (d :: digits).foldl (fun value digit ↦ value * base + digit) value
        < (value * base + d + 1) * base ^ digits.length := ih h.2 _
      _ ≤ (value * base + base) * base ^ digits.length :=
        Nat.mul_le_mul_right _ (by omega)
      _ = (value + 1) * base ^ (d :: digits).length := by
        rw [length_cons, pow_succ', ← Nat.mul_assoc, Nat.add_one_mul]

theorem codeOf_lt (width : ℕ) (text : Text) : codeOf width text < 16 ^ width := by
  have hdigits : ∀ d ∈ (text.take width).filterMap hexValue, d < 16 := by
    intro d hd
    obtain ⟨c, -, hc⟩ := mem_filterMap.mp hd
    exact (hexValue_eq_some hc).1
  have hlt := foldl_lt hdigits 0
  have hlength : ((text.take width).filterMap hexValue).length ≤ width :=
    (length_filterMap_le _ _).trans (length_take_le _ _)
  rw [Nat.zero_add, Nat.one_mul] at hlt
  exact hlt.trans_le (Nat.pow_le_pow_right (by omega) hlength)

theorem hexEscape_of_hexAhead {width : ℕ} (h : hexAhead width text = true) :
    hexEscape width text = if codeOf width text ≤ 0x10ffff then
      some ([codeOf width text], text.drop width) else none := by
  simp only [hexAhead, decide_eq_true_eq] at h
  rw [hexEscape, if_pos h.1, mapM_hexValue h.2]
  rfl

theorem head?_subInvalidEscapes (t : Text) : (subInvalidEscapes t).head? = t.head? := by
  match t with
  | [] => rfl
  | [c] => by_cases hc : c = backslash <;> simp [subInvalidEscapes, hc]
  | c :: d :: rest =>
    rw [subInvalidEscapes]
    split_ifs
    all_goals rfl

theorem takeWhile_take_subInvalidEscapes {p : ℕ → Bool} (hp : p backslash = false) (n : ℕ)
    (t : Text) : ((subInvalidEscapes t).take n).takeWhile p = (t.take n).takeWhile p := by
  induction n generalizing t with
  | zero => simp
  | succ n ih =>
    cases t with
    | nil => rfl
    | cons c t =>
      by_cases hc : c = backslash
      · subst hc
        obtain ⟨t', ht'⟩ := head?_eq_some_iff.mp (head?_subInvalidEscapes (backslash :: t))
        rw [ht', take_succ_cons, take_succ_cons, takeWhile_cons_of_neg (by simp [hp]),
          takeWhile_cons_of_neg (by simp [hp])]
      · rw [subInvalidEscapes_cons hc, take_succ_cons, take_succ_cons,
          takeWhile_cons, takeWhile_cons, ih]

theorem take_drop_subInvalidEscapes {n : ℕ} (hn : n ≤ t.length)
    (hplain : ∀ c ∈ t.take n, c ≠ backslash) : (subInvalidEscapes t).take n = t.take n ∧
      (subInvalidEscapes t).drop n = subInvalidEscapes (t.drop n) := by
  have hlength : (t.take n).length = n := length_take_of_le hn
  have hsub := subInvalidEscapes_append hplain (t.drop n)
  rw [take_append_drop] at hsub
  rw [hsub]
  exact ⟨take_left' hlength, drop_left' hlength⟩

/-! ### Reading the pieces of a literal -/

/-- What comes of a round on some pieces: a code point that is too large, or some characters and the
pieces that are left, with the code points of the escapes that were read. -/
inductive Round (pieces : List Piece) : Option (Text × Text) → Prop
  | refuse {v : ℕ} (hmem : v ∈ codeEscapes pieces) (hlarge : 0x10ffff < v) : Round pieces none
  | read {w : Text} {left : List Piece} {o : List ℕ}
      (hlength : (textOf left).length < (textOf pieces).length)
      (hcodes : codeEscapes pieces = o ++ codeEscapes left) (hown : ∀ v ∈ o, v ≤ 0x10ffff)
      (hsubset : textOf left ⊆ textOf pieces)
      (hvalid : (∀ d ∈ textOf pieces, d.isValidChar) →
        ((∀ d ∈ w, d.isValidChar) ↔ ∀ v ∈ o, v.isValidChar)) :
      Round pieces (some (w, subInvalidEscapes (textOf left)))

theorem textOf_cons (piece : Piece) (rest : List Piece) :
    textOf (piece :: rest) = piece.text ++ textOf rest := flatMap_cons

theorem Round.one {o : List ℕ} {n v : ℕ}
    (hcodes : codeEscapes (.escaped c :: rest) = o ++ codeEscapes rest)
    (hown : ∀ v ∈ o, v ≤ 0x10ffff) (hn : n ≤ (textOf rest).length)
    (hplain : ∀ d ∈ (textOf rest).take n, d ≠ backslash)
    (hvalid : v.isValidChar ↔ ∀ v ∈ o, v.isValidChar) :
    Round (.escaped c :: rest) (some ([v], (subInvalidEscapes (textOf rest)).drop n)) := by
  obtain ⟨htext, hcodes'⟩ := drop_pieces hn hplain
  rw [(take_drop_subInvalidEscapes hn hplain).2, ← htext]
  refine Round.read ?_ (hcodes'.symm ▸ hcodes) hown ?_ fun _ ↦ by simpa using hvalid
  · rw [textOf_cons, length_append, htext, length_drop]
    show _ < 2 + _
    omega
  · rw [htext, textOf_cons]
    exact fun d hd ↦ mem_append_right _ (mem_of_mem_drop hd)

theorem Round.hex {o : List ℕ} {width : ℕ} (h : hexAhead width (textOf rest) = true)
    (hcodes : codeEscapes (.escaped c :: rest) = o ++ codeEscapes rest)
    (hown : o = [codeOf width (textOf rest)] ∨ o = [] ∧ codeOf width (textOf rest) < 0xd800) :
    Round (.escaped c :: rest) (hexEscape width (subInvalidEscapes (textOf rest))) := by
  have hahead := h
  simp only [hexAhead, decide_eq_true_eq] at hahead
  have hn : width ≤ (textOf rest).length := hahead.1 ▸ length_take_le' _ _
  have hplain : ∀ d ∈ (textOf rest).take width, d ≠ backslash := by
    intro d hd
    obtain ⟨v, hv⟩ := Option.isSome_iff_exists.mp (hahead.2 d hd)
    exact (hexValue_eq_some hv).2
  have htake := (take_drop_subInvalidEscapes hn hplain).1
  have hcode : codeOf width (subInvalidEscapes (textOf rest)) = codeOf width (textOf rest) := by
    rw [codeOf, htake, codeOf]
  have hahead' : hexAhead width (subInvalidEscapes (textOf rest)) = true := by
    simpa only [hexAhead, htake] using h
  rw [hexEscape_of_hexAhead hahead', hcode]
  by_cases hle : codeOf width (textOf rest) ≤ 0x10ffff
  · rw [if_pos hle]
    refine Round.one hcodes ?_ hn hplain ?_
    · rcases hown with rfl | ⟨rfl, -⟩
      · simpa using hle
      · simp
    · rcases hown with rfl | ⟨rfl, hlt⟩
      · simp
      · exact iff_of_true (Or.inl hlt) (by simp)
  · rw [if_neg hle]
    refine Round.refuse (v := codeOf width (textOf rest)) ?_ (not_le.mp hle)
    rcases hown with rfl | ⟨-, hlt⟩
    · rw [hcodes]
      exact mem_append_left _ mem_cons_self
    · omega

theorem Round.octal (hc : isOctal c = true)
    (hcodes : codeEscapes (.escaped c :: rest) = codeEscapes rest) :
    Round (.escaped c :: rest) (some (octalEscape c (subInvalidEscapes (textOf rest)))) := by
  unfold octalEscape
  rw [takeWhile_take_subInvalidEscapes rfl]
  set digits := ((textOf rest).take 2).takeWhile isOctal with hdigits
  have hprefix : digits <+: textOf rest :=
    ( takeWhile_prefix _).trans ( take_prefix _ _)
  have htake : (textOf rest).take digits.length = digits :=
    (prefix_iff_eq_take.mp hprefix).symm
  have hoctal : ∀ d ∈ c :: digits, isOctal d = true := by
    rw [forall_mem_cons]
    exact ⟨hc, fun d hd ↦ mem_takeWhile_imp hd⟩
  have hlength : (c :: digits).length ≤ 3 :=
    Nat.succ_le_succ (( takeWhile_prefix _).length_le.trans (length_take_le _ _))
  refine Round.one (o := []) hcodes (by simp) hprefix.length_le ?_
    (iff_of_true (Or.inl ?_) (by simp))
  · rw [htake]
    intro d hd heq
    have := hoctal d (mem_cons_of_mem c hd)
    rw [heq] at this
    exact absurd this (by decide)
  · have hdigit : ∀ d ∈ (c :: digits).map (· - '0'.toNat), d < 8 := by
      intro d hd
      obtain ⟨d, hmem, rfl⟩ := mem_map.mp hd
      have hle := hoctal d hmem
      simp only [isOctal, decide_eq_true_eq] at hle
      have hseven : '7'.toNat = 55 := rfl
      have hzero : '0'.toNat = 48 := rfl
      omega
    have hlt := foldl_lt hdigit 0
    rw [foldl_map, length_map, Nat.zero_add, Nat.one_mul] at hlt
    have hpow : 8 ^ (c :: digits).length ≤ 8 ^ 3 := Nat.pow_le_pow_right (by omega) hlength
    exact hlt.trans_le (hpow.trans (by decide))

theorem Round.escape (hc : c ≠ backslash) (h : isEscape (c :: textOf rest) = true) :
    Round (.escaped c :: rest)
      (readEscape py.characterNamed (c :: subInvalidEscapes (textOf rest))) := by
  have hother (hu : ¬(c = 'u'.toNat ∧ hexAhead 4 (textOf rest) = true))
      (hlong : ¬(c = 'U'.toNat ∧ hexAhead 8 (textOf rest) = true)) :
      codeEscapes (.escaped c :: rest) = codeEscapes rest := by
    rw [codeEscapes, if_neg (by simpa using hu), if_neg (by simpa using hlong)]
    rfl
  simp only [isEscape, Bool.or_eq_true, Bool.and_eq_true, decide_eq_true_eq, or_assoc] at h
  rcases h with ⟨rfl, hx⟩ | ⟨rfl, hu⟩ | ⟨rfl, hlong⟩ | hoctal | hmem
  · have hcodes := hother (fun heq ↦ absurd heq.1 (by decide)) (fun heq ↦ absurd heq.1 (by decide))
    have hlt := codeOf_lt 2 (textOf rest)
    exact Round.hex hx (o := []) hcodes (Or.inr ⟨rfl, hlt.trans (by decide)⟩)
  · refine Round.hex hu (o := [codeOf 4 (textOf rest)]) ?_ (Or.inl rfl)
    rw [codeEscapes, if_pos (by simp [hu])]
  · refine Round.hex hlong (o := [codeOf 8 (textOf rest)]) ?_ (Or.inl rfl)
    rw [codeEscapes, if_neg (by simp), if_pos (by simp [hlong])]
  · have hrange : 48 ≤ c ∧ c ≤ 55 := by simpa [isOctal] using hoctal
    have hcodes := hother (fun heq ↦ by simp [heq.1] at hrange)
      (fun heq ↦ by simp [heq.1] at hrange)
    have hread : readEscape py.characterNamed (c :: subInvalidEscapes (textOf rest)) =
        some (octalEscape c (subInvalidEscapes (textOf rest))) := by
      have hdigits : ∀ c < 56, 48 ≤ c → simpleEscapes.lookup c = none := by decide
      have hlookup := hdigits c (by omega) hrange.1
      have hnewline : c ≠ newline := by
        have : newline = 10 := rfl
        omega
      rw [readEscape, if_neg hnewline, hlookup]
      simp only [hoctal, if_true]
    rw [hread]
    exact Round.octal hoctal hcodes
  · have hsimple : ∃ d, d < 128 ∧ ∀ text, readEscape py.characterNamed (c :: text) =
        some ([d], text) := by
      have hsimple : ∀ c ∈ word "\\'\"abfnrtv", c ≠ newline ∧
          (simpleEscapes.lookup c).getD 128 < 128 := by decide
      obtain ⟨hnewline, hlt⟩ := hsimple c hmem
      cases hlookup : simpleEscapes.lookup c with
      | none =>
        rw [hlookup] at hlt
        exact absurd hlt (Nat.lt_irrefl 128)
      | some d =>
        rw [hlookup] at hlt
        exact ⟨d, hlt, fun text ↦ by rw [readEscape, if_neg hnewline, hlookup]⟩
    obtain ⟨d, hd, hread⟩ := hsimple
    rw [hread]
    refine Round.one (n := 0) (o := []) (hother ?_ ?_) (by simp) (Nat.zero_le _) (by simp)
      (iff_of_true (Or.inl (by omega)) (by simp))
    · rintro ⟨rfl, -⟩
      exact absurd hmem (by decide)
    · rintro ⟨rfl, -⟩
      exact absurd hmem (by decide)

theorem readLiteral_backslash (hc : c ≠ carriageReturn) (text : Text) :
    readLiteral py (backslash :: c :: text) = readEscape py.characterNamed (c :: text) := by
  rw [readLiteral, if_neg (by decide), if_neg (fun h ↦ hc (Option.some.inj h.2)), readChar,
    if_pos rfl]

theorem round_plain (h : c ≠ doubleQuote ∧ c ≠ backslash) (rest : List Piece) :
    Round (.plain c h :: rest)
      (readLiteral py (subInvalidEscapes (textOf (.plain c h :: rest)))) := by
  have hcons : textOf (.plain c h :: rest) = c :: textOf rest := rfl
  rw [hcons, subInvalidEscapes_cons h.2, readLiteral]
  by_cases hreturn : c = carriageReturn
  · rw [if_pos hreturn]
    have hvalid : (∀ d ∈ [newline], d.isValidChar) ↔ ∀ v ∈ ([] : List ℕ), v.isValidChar :=
      iff_of_true (by decide) (by simp)
    by_cases hline : (subInvalidEscapes (textOf rest)).head? = some newline
    · rw [if_pos hline]
      match rest with
      | [] => exact absurd hline (by simp [textOf, subInvalidEscapes])
      | .escaped d :: rest =>
        rw [head?_subInvalidEscapes] at hline
        exact absurd (Option.some.inj hline) (by decide)
      | .plain d hd :: rest =>
        have hcons' : textOf (.plain d hd :: rest) = d :: textOf rest := rfl
        rw [hcons', subInvalidEscapes_cons hd.2, tail_cons]
        exact Round.read (o := [])
          (by rw [hcons, hcons', length_cons, length_cons]; omega) rfl (by simp)
          (by rw [hcons, hcons']; exact fun e he ↦ by simp [he]) fun _ ↦ hvalid
    · rw [if_neg hline]
      exact Round.read (o := []) (by simp [hcons]) rfl (by simp)
        (by rw [hcons]; exact subset_cons_self _ _) fun _ ↦ hvalid
  · rw [if_neg hreturn, if_neg (fun hbackslash ↦ h.2 hbackslash.1), readChar, if_neg h.2]
    refine Round.read (o := []) (by simp [hcons]) rfl (by simp)
      (by rw [hcons]; exact subset_cons_self _ _) fun hall ↦ iff_of_true ?_ (by simp)
    rw [forall_mem_singleton]
    exact hall c (by simp [hcons])

variable (py) in
theorem round (piece : Piece) (rest : List Piece) :
    Round (piece :: rest) (readLiteral py (subInvalidEscapes (textOf (piece :: rest)))) := by
  match piece with
  | .plain c h => exact round_plain h rest
  | .escaped c =>
    have hcons : textOf (.escaped c :: rest) = backslash :: c :: textOf rest := rfl
    rw [hcons, subInvalidEscapes, if_neg (not_not_intro rfl)]
    by_cases hbackslash : c = backslash
    · subst hbackslash
      exact Round.one (n := 0) (v := backslash) (o := []) rfl (by simp) (Nat.zero_le _) (by simp)
        (iff_of_true (by decide) (by simp))
    rw [if_neg hbackslash]
    by_cases hescape : isEscape (c :: textOf rest) = true
    · have hreturn : c ≠ carriageReturn := by
        rintro rfl
        have hnone : isEscape (carriageReturn :: textOf rest) = false := rfl
        cases hescape
      rw [if_pos hescape, subInvalidEscapes_cons hbackslash, readLiteral_backslash hreturn]
      exact Round.escape hbackslash hescape
    · -- An escape that is none is doubled, and its character is read in the next round.
      have hquote : c ≠ doubleQuote := by
        rintro rfl
        have hsome : isEscape (doubleQuote :: textOf rest) = true := rfl
        exact hescape hsome
      have hplain : textOf (.plain c ⟨hquote, hbackslash⟩ :: rest) = c :: textOf rest := rfl
      have hcodes : codeEscapes (.escaped c :: rest) = [] ++ codeEscapes rest := by
        have hnone := hescape
        simp only [isEscape, Bool.or_eq_true, not_or] at hnone
        rw [codeEscapes, if_neg hnone.1.1.1.2, if_neg hnone.1.1.2]
      rw [if_neg hescape, readLiteral_backslash (by decide), ← hplain]
      refine Round.read (w := [backslash]) ?_ hcodes (by simp) ?_ fun _ ↦
        iff_of_true (by decide) (by simp)
      · rw [hplain, hcons]
        simp
      · rw [hplain, hcons]
        exact subset_cons_self _ _

theorem shortens_readLiteral : Shortens (readLiteral py) := by
  intro text written rest h
  cases text with
  | nil => exact absurd h.symm (Option.some_ne_none _)
  | cons c text =>
    rw [readLiteral] at h
    split_ifs at h with hreturn hline hbackslash hline
    · cases h
      simp only [length_tail, length_cons]
      omega
    · cases h
      exact Nat.lt_succ_self _
    · cases h
      simp only [length_tail, length_cons]
      omega
    · cases h
      simp only [length_tail, length_cons]
      omega
    · exact shortens_readChar _ h

variable (py) in
theorem many_readLiteral (pieces : List Piece) :
    ((many (readLiteral py) (subInvalidEscapes (textOf pieces))).2 = [] ↔
      ∀ v ∈ codeEscapes pieces, v ≤ 0x10ffff) ∧
    ((∀ v ∈ codeEscapes pieces, v ≤ 0x10ffff) → (∀ d ∈ textOf pieces, d.isValidChar) →
      ((∀ d ∈ (many (readLiteral py) (subInvalidEscapes (textOf pieces))).1.flatten,
        d.isValidChar) ↔ ∀ v ∈ codeEscapes pieces, v.isValidChar)) := by
  induction hlength : (textOf pieces).length using Nat.strong_induction_on generalizing pieces with
  | _ length ih =>
    match pieces with
    | [] => exact ⟨iff_of_true rfl nofun, fun _ _ ↦ iff_of_true nofun nofun⟩
    | piece :: rest =>
      have hround := round py piece rest
      generalize hresult : readLiteral py _ = result at hround
      cases hround with
      | refuse hmem hlarge =>
        rw [many_of_none hresult]
        have htext : subInvalidEscapes (textOf (piece :: rest)) ≠ [] := by
          intro hnil
          have hhead := head?_subInvalidEscapes (textOf (piece :: rest))
          rw [hnil, textOf_cons] at hhead
          cases piece <;> cases hhead
        have hsome : ¬∀ v ∈ codeEscapes (piece :: rest), v ≤ 0x10ffff := fun hall ↦
          absurd (hall _ hmem) (not_le.mpr hlarge)
        exact ⟨iff_of_false htext hsome, fun hall ↦ absurd hall hsome⟩
      | read hshorter hcodes hown hsubset hvalid =>
        obtain ⟨hend, hflat⟩ := ih _ (hlength ▸ hshorter) _ rfl
        rw [many_of_some shortens_readLiteral hresult, hcodes]
        simp only [forall_mem_append, flatten_cons]
        refine ⟨hend.trans (and_iff_right hown).symm, fun hall hchars ↦ ?_⟩
        rw [hvalid hchars, hflat hall.2 fun d hd ↦ hchars d (hsubset hd)]

theorem mem_subInvalidEscapes {d : ℕ} (t : Text) : d ∈ subInvalidEscapes t ↔ d ∈ t := by
  fun_induction subInvalidEscapes t with
  | case1 => rfl
  | case2 => simp
  | case3 => rfl
  | case4 c e rest hc ih => simp only [mem_cons, ih]
  | case5 => simp [*]
  | case6 c e rest hc he hescape ih => simp only [mem_cons, ih]
  | case7 c e rest hc he hescape ih => simp only [mem_cons, ih, or_self_left]

variable (py) in
theorem visitArgument_encodes_iff (node : ArgumentNode) :
    (∃ pattern, visitArgument py node = .ok pattern ∧ ∀ c ∈ pattern, c.isValidChar) ↔
      node.Sound := by
  match node with
  | .unquoted text => exact ⟨fun ⟨_, heq, h⟩ ↦ Except.ok.inj heq ▸ h, fun h ↦ ⟨text, rfl, h⟩⟩
  | .quoted inner =>
    obtain ⟨hend, hvalid⟩ := many_readLiteral py inner
    rw [visitArgument, unescapeString, literalEval, ArgumentNode.Sound]
    simp only [mem_subInvalidEscapes]
    by_cases hnull : 0 ∈ textOf inner
    · rw [if_pos hnull]
      exact iff_of_false nofun fun h ↦ (h.1 0 hnull).1 rfl
    rw [if_neg hnull]
    by_cases hsurrogate : ∃ c ∈ textOf inner, ¬c.isValidChar
    · rw [if_pos hsurrogate]
      obtain ⟨c, hc, hinvalid⟩ := hsurrogate
      exact iff_of_false nofun fun h ↦ hinvalid (h.1 c hc).2
    rw [if_neg hsurrogate]
    push Not at hsurrogate
    have hchars : ∀ c ∈ textOf inner, c ≠ 0 ∧ c.isValidChar := fun c hc ↦
      ⟨fun heq ↦ hnull (heq ▸ hc), hsurrogate c hc⟩
    rw [and_iff_right hchars]
    generalize many (readLiteral py) (subInvalidEscapes (textOf inner)) = result at hend hvalid
    match result with
    | (written, _ :: _) =>
      refine iff_of_false nofun fun h ↦ ?_
      have hnil := hend.mpr fun v hv ↦ ?_
      · cases hnil
      · rcases h v hv with hlow | hhigh
        · omega
        · omega
    | (written, []) =>
      rw [← hvalid (hend.mp rfl) hsurrogate]
      exact ⟨fun ⟨_, heq, h⟩ ↦ Except.ok.inj heq ▸ h, fun h ↦ ⟨_, rfl, h⟩⟩

/-! ### Configs -/

/-- The type of the matcher is known, and its argument is sound. -/
def FrameMatcherNode.Sound (node : FrameMatcherNode) : Prop :=
  (matcherOf node.matcherType).isSome ∧ node.argument.Sound

def RuleNode.MatchersSound (node : RuleNode) : Prop :=
  (∀ m ∈ node.callerMatcher.toList, m.Sound) ∧ (∀ m ∈ node.frameMatchers, m.Sound) ∧
    ∀ m ∈ node.calleeMatcher.toList, m.Sound

def RuleNode.ActionsSound (py : PyLib) (node : RuleNode) : Prop :=
  ∀ action ∈ node.actions, ∃ result, visitAction py action = .ok result

/-- A call returns, or raises `InvalidEnhancerConfig`. -/
def Declared {α : Type} (result : Except Error α) : Prop := ∀ e, result = .error e → e.Declared

section Lists

variable {α β ε : Type} {f : α → Except ε β}

theorem mapM_isOk_iff {l : List α} : (∃ ys, l.mapM f = .ok ys) ↔ ∀ x ∈ l, ∃ y, f x = .ok y := by
  induction l with
  | nil => exact iff_of_true ⟨[], rfl⟩ nofun
  | cons x l ih =>
    rw [forall_mem_cons, ← ih, mapM_cons]
    match f x with
    | .error e => exact iff_of_false nofun fun h ↦ nomatch h.1
    | .ok y =>
      match l.mapM f with
      | .error e => exact iff_of_false nofun fun h ↦ nomatch h.2
      | .ok ys => exact iff_of_true ⟨_, rfl⟩ ⟨⟨y, rfl⟩, ys, rfl⟩

theorem mapM_of_error {before after : List α} {x : α} {e : ε}
    (hbefore : ∀ y ∈ before, ∃ z, f y = .ok z) (h : f x = .error e) :
    (before ++ x :: after).mapM f = .error e := by
  induction before with
  | nil => rw [nil_append, mapM_cons, h]; rfl
  | cons y before ih =>
    rw [forall_mem_cons] at hbefore
    obtain ⟨z, hz⟩ := hbefore.1
    rw [cons_append, mapM_cons, hz, ih hbefore.2]
    rfl

theorem exists_first_error {l : List α} {e : ε} (h : l.mapM f = .error e) :
    ∃ before x after, l = before ++ x :: after ∧ (∀ y ∈ before, ∃ z, f y = .ok z) ∧
      f x = .error e := by
  induction l with
  | nil => cases h
  | cons x l ih =>
    rw [mapM_cons] at h
    match hx : f x with
    | .error e' =>
      rw [hx] at h
      cases h
      exact ⟨[], x, l, rfl, nofun, hx⟩
    | .ok y =>
      rw [hx] at h
      match hl : l.mapM f with
      | .ok ys =>
        rw [hl] at h
        cases h
      | .error e' =>
        rw [hl] at h
        cases h
        obtain ⟨before, z, after, rfl, hbefore, hz⟩ := ih hl
        exact ⟨x :: before, z, after, rfl, forall_mem_cons.mpr ⟨⟨y, hx⟩, hbefore⟩, hz⟩

end Lists

variable {node : RuleNode}

theorem encodeUtf8_isOk_iff (pattern : Text) :
    (∃ chars, encodeUtf8 pattern = .ok chars) ↔ ∀ c ∈ pattern, c.isValidChar := by
  unfold encodeUtf8
  by_cases h : ∃ c ∈ pattern, ¬c.isValidChar
  · rw [if_pos h]
    exact iff_of_false nofun fun hall ↦ h.elim fun c hc ↦ hc.2 (hall c hc.1)
  · rw [if_neg h]
    push Not at h
    exact iff_of_true ⟨_, rfl⟩ h

variable (py) in
/-- A matcher is visited if it is sound, and otherwise `VisitationError` is raised. -/
theorem visitFrameMatcher_cases (m : FrameMatcherNode) :
    (m.Sound ∧ ∃ match', visitFrameMatcher py m = .ok match') ∨
      (¬m.Sound ∧ ∃ raised, visitFrameMatcher py m = .error (.visitationError raised)) := by
  unfold visitFrameMatcher FrameMatcherNode.Sound
  rw [← visitArgument_encodes_iff py]
  match harg : visitArgument py m.argument with
  | .error raised => exact Or.inr ⟨fun h ↦ h.2.elim fun _ heq ↦ (nomatch heq.1), raised, rfl⟩
  | .ok pattern =>
    show (_ ∧ ∃ m', Except.mapError _ (fromKey m.matcherType pattern m.negated) = _) ∨
      (_ ∧ ∃ raised, Except.mapError _ (fromKey m.matcherType pattern m.negated) = _)
    unfold fromKey
    match matcherOf m.matcherType with
    | none => exact Or.inr ⟨fun h ↦ (Bool.false_ne_true h.1).elim, _, rfl⟩
    | some key =>
      have hencodes := encodeUtf8_isOk_iff pattern
      match hchars : encodeUtf8 pattern with
      | .ok chars => exact Or.inl ⟨⟨rfl, pattern, rfl, hencodes.mp ⟨chars, hchars⟩⟩, _, rfl⟩
      | .error raised =>
        refine Or.inr ⟨fun h ↦ ?_, raised, rfl⟩
        obtain ⟨pattern', heq, hvalid⟩ := h.2
        obtain ⟨chars, hok⟩ := hencodes.mpr (Except.ok.inj heq ▸ hvalid)
        cases hchars.symm.trans hok

variable (py) in
theorem mapM_visitFrameMatcher_cases (matchers : List FrameMatcherNode) :
    ((∀ m ∈ matchers, m.Sound) ∧ ∃ matches', matchers.mapM (visitFrameMatcher py) = .ok matches') ∨
      ((¬∀ m ∈ matchers, m.Sound) ∧
        ∃ raised, matchers.mapM (visitFrameMatcher py) = .error (.visitationError raised)) := by
  match hmapM : matchers.mapM (visitFrameMatcher py) with
  | .ok matches' =>
    refine Or.inl ⟨fun m hm ↦ ?_, matches', rfl⟩
    obtain ⟨match', hok⟩ := mapM_isOk_iff.mp ⟨_, hmapM⟩ m hm
    rcases visitFrameMatcher_cases py m with ⟨hsound, -⟩ | ⟨-, raised, herror⟩
    · exact hsound
    · cases hok.symm.trans herror
  | .error e =>
    obtain ⟨before, m, after, heq, -, he⟩ := exists_first_error hmapM
    rcases visitFrameMatcher_cases py m with ⟨-, match', hok⟩ | ⟨hunsound, raised, herror⟩
    · cases hok.symm.trans he
    · cases herror.symm.trans he
      exact Or.inr ⟨fun hall ↦ hunsound (hall m (heq ▸ mem_append_right _
        mem_cons_self)), raised, rfl⟩

variable (py) in
theorem visitRule_cases (node : RuleNode) :
    (node.MatchersSound ∧ Declared (visitRule py node) ∧
        (node.ActionsSound py ↔ ∃ rule, visitRule py node = .ok rule)) ∨
      (¬node.MatchersSound ∧ ∃ raised, visitRule py node = .error (.visitationError raised)) := by
  unfold visitRule RuleNode.MatchersSound
  rcases mapM_visitFrameMatcher_cases py node.callerMatcher.toList with
    ⟨hcaller, caller, hok⟩ | ⟨hcaller, raised, herror⟩
  swap
  · rw [herror]
    exact Or.inr ⟨fun h ↦ hcaller h.1, raised, rfl⟩
  rw [hok]
  rcases mapM_visitFrameMatcher_cases py node.frameMatchers with
    ⟨hframes, frames, hok⟩ | ⟨hframes, raised, herror⟩
  swap
  · rw [herror]
    exact Or.inr ⟨fun h ↦ hframes h.2.1, raised, rfl⟩
  rw [hok]
  rcases mapM_visitFrameMatcher_cases py node.calleeMatcher.toList with
    ⟨hcallee, callee, hok⟩ | ⟨hcallee, raised, herror⟩
  swap
  · rw [herror]
    exact Or.inr ⟨fun h ↦ hcallee h.2.2, raised, rfl⟩
  rw [hok, RuleNode.ActionsSound, ← mapM_isOk_iff]
  refine Or.inl ⟨⟨hcaller, hframes, hcallee⟩, ?_⟩
  match hactions : node.actions.mapM (visitAction py) with
  | .ok actions => exact ⟨nofun, iff_of_true ⟨actions, rfl⟩ ⟨_, rfl⟩⟩
  | .error e =>
    refine ⟨fun e' he' ↦ ?_, iff_of_false nofun nofun⟩
    obtain ⟨before, action, after, -, -, he⟩ := exists_first_error hactions
    cases he'
    match action with
    | .flagAction range flag name => cases he
    | .varAction name value =>
      rw [visitAction] at he
      split at he
      · cases he
      · cases he
        trivial

/-- The rule is visited. -/
def RuleNode.Sound (py : PyLib) (node : RuleNode) : Prop :=
  node.MatchersSound ∧ node.ActionsSound py

theorem sound_iff : node.Sound py ↔ ∃ rule, visitRule py node = .ok rule := by
  unfold RuleNode.Sound
  rcases visitRule_cases py node with ⟨hsound, -, hiff⟩ | ⟨hunsound, raised, herror⟩
  · rw [and_iff_right hsound, hiff]
  · rw [herror]
    exact iff_of_false (fun h ↦ hunsound h.1) nofun

/-- A config fails in the declared way only, if and only if it does not match the grammar or the
first rule at fault has sound matchers. -/
theorem parseEnhancements_declared_iff (s : Text) :
    Declared (parseEnhancements py s) ↔ ∀ nodes, enhancementsGrammar py s = some nodes →
      ∀ before node after, nodes = before ++ node :: after → (∀ r ∈ before, r.Sound py) →
        node.MatchersSound := by
  unfold parseEnhancements
  match enhancementsGrammar py s with
  | none => exact iff_of_true (fun e he ↦ by cases he; trivial) nofun
  | some nodes =>
    constructor
    · rintro hdeclared _ ⟨⟩ before node after rfl hbefore
      rcases visitRule_cases py node with ⟨hsound, -⟩ | ⟨-, raised, herror⟩
      · exact hsound
      · exact (hdeclared _ (mapM_of_error (fun r hr ↦ sound_iff.mp (hbefore r hr)) herror)).elim
    · intro hfirst e he
      obtain ⟨before, node, after, heq, hbefore, hnode⟩ := exists_first_error he
      have hsound := hfirst nodes rfl before node after heq fun r hr ↦ sound_iff.mpr (hbefore r hr)
      rcases visitRule_cases py node with ⟨-, hdeclared, -⟩ | ⟨hunsound, -⟩
      · exact hdeclared e hnode
      · exact absurd hsound hunsound

/-- A matcher of an unknown type. -/
def unknownMatcher : Text := word "foo:bar +app"

theorem unknownMatcher_not_declared :
    ¬∀ (py : PyLib) (s : Text), Declared (parseEnhancements py s) := by
  intro h
  have hdeclared := h ⟨(· = space), fun _ ↦ none, fun _ pattern s ↦ pattern == s, fun _ ↦ none,
    fun s ↦ s.map Char.toLower, fun _ _ ↦ rfl⟩ unknownMatcher
  exact hdeclared (.visitationError (.keyError (word "foo"))) rfl

end Sentry.Grouping.Enhancer
