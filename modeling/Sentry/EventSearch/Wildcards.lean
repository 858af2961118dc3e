import Sentry.Library.SimpleRegex
import Mathlib.Data.List.Infix

/-!
# Wildcards

The values of search filters have asterisks for wildcards, and backslashes that escape. A value with
wildcards is matched by a regular expression (`translate_wildcard`). If the only wildcards are at
the beginning and at the end, then it is tested for a prefix, a suffix or an infix, after the other
escape sequences are translated (`format_wildcard`).
-/

namespace Sentry.EventSearch

open Library.Regex

/-- The metacharacters that `translate_wildcard` escapes; the braces are not among them. -/
def metacharacters : List Char :=
  ['(', ')', '[', ']', '?', '*', '+', '-', '|', '^', '$', '\\', '.', '&', '~', '#', ' ', '\t', '\n',
    '\r', '\x0b', '\x0c']

/-- The loop of `translate_wildcard`. -/
def translateCharacters : List Char → List Char
  | [] => []
  | [c] =>
    if c = '*' then ['.', '*'] else if c ∈ metacharacters then escape c else [c]
  | c :: d :: rest =>
    if c = '\\' then escape d ++ translateCharacters rest
    else if c = '*' then '.' :: '*' :: translateCharacters (d :: rest)
    else (if c ∈ metacharacters then escape c else [c]) ++ translateCharacters (d :: rest)

def translateWildcard (pat : List Char) : List Char := '^' :: translateCharacters pat ++ ['$']

def translateEscapeSequences : List Char → List Char
  | [] => []
  | [c] => [c]
  | c :: d :: rest =>
    if c = '\\' ∧ d = '*' then '*' :: translateEscapeSequences rest
    else c :: translateEscapeSequences (d :: rest)

/-- The spans of the matches of `(?<!\\)(\\\\)*\*`: an asterisk with an even number of backslashes
before it, together with these. The number of backslashes before the position is given. -/
def wildcardSpans : ℕ → ℕ → List Char → List (ℕ × ℕ)
  | _, _, [] => []
  | position, backslashes, c :: rest =>
    if c = '*' then
      (if backslashes % 2 = 0 then [(position - backslashes, position + 1)] else []) ++
        wildcardSpans (position + 1) 0 rest
    else wildcardSpans (position + 1) (if c = '\\' then backslashes + 1 else 0) rest

/-- `WILDCARD_CHARS.finditer`. -/
def findWildcards (value : List Char) : List (ℕ × ℕ) := wildcardSpans 0 0 value

def isWildcard (value : List Char) : Bool := findWildcards value ≠ []

inductive WildcardKind
  | prefixKind
  | infixKind
  | suffixKind
  | other
deriving DecidableEq

def leadingWildcard (span : ℕ × ℕ) : Bool := span = (0, 1)

def trailingWildcard (value : List Char) (span : ℕ × ℕ) : Bool :=
  ¬ leadingWildcard span ∧ span.2 = value.length

def middleWildcard (value : List Char) (span : ℕ × ℕ) : Bool :=
  ¬ leadingWildcard span ∧ span.2 ≠ value.length

def classifyWildcard (value : List Char) : WildcardKind :=
  if ¬ isWildcard value then .other
  else if (findWildcards value).any (middleWildcard value) then .other
  else if (findWildcards value).any leadingWildcard ∧
      (findWildcards value).any (trailingWildcard value) then .infixKind
  else if (findWildcards value).any leadingWildcard then .suffixKind
  else if (findWildcards value).any (trailingWildcard value) then .prefixKind
  else .other

/-- `SearchValue.value`. -/
def searchValue (value : List Char) : List Char :=
  if isWildcard value then translateWildcard value else translateEscapeSequences value

def formatWildcard (value : List Char) : WildcardKind → List Char
  | .prefixKind => translateEscapeSequences value.dropLast
  | .infixKind => translateEscapeSequences value.tail.dropLast
  | .suffixKind => translateEscapeSequences value.tail
  | .other => searchValue value

/-- A text is tested by `startsWith`, `endsWith` or for its position, or it is matched by the
regular expression; `none` if this does not compile. -/
def testWildcard (kind : WildcardKind) (formatted text : List Char) : Option Bool :=
  match kind with
  | .prefixKind => some (formatted <+: text)
  | .suffixKind => some (formatted <:+ text)
  | .infixKind => some (formatted <:+: text)
  | .other => reMatch formatted text

end Sentry.EventSearch
