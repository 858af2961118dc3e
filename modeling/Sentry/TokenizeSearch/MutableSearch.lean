import Mathlib.Data.List.DropRight

/-!
# Search strings

`MutableSearch` of `utils/tokenizeSearch.tsx`: a search string is split into words, each word gives
tokens, and `formatString` prints the tokens. A string of JavaScript is the list of its UTF-16 code
units. Its operations on the tokens (filters that are added, replaced and removed) are left out.
-/

namespace Sentry.TokenizeSearch

abbrev CodeUnit := UInt16

/-- A string. -/
abbrev Str := List CodeUnit

/-- `"` -/
def doubleQuote : CodeUnit := 34

/-- `'` -/
def singleQuote : CodeUnit := 39

/-- `(` -/
def openParen : CodeUnit := 40

/-- `)` -/
def closeParen : CodeUnit := 41

/-- `:` -/
def colon : CodeUnit := 58

/-- `\` -/
def backslash : CodeUnit := 92

/-- The space character. -/
def space : CodeUnit := 32

/-- White space and line terminators, which `trim` removes and `\s` matches. -/
def isSpace (char : CodeUnit) : Bool :=
  (9 ≤ char && char ≤ 13) || char == 32 || char == 160 || char == 5760 ||
    (8192 ≤ char && char ≤ 8202) || char == 8232 || char == 8233 || char == 8239 || char == 8287 ||
    char == 12288 || char == 65279

/-- `trim` -/
def trim (text : Str) : Str := (text.dropWhile isSpace).rdropWhile isSpace

/-- `toUpperCase`, of ASCII letters; no other code unit is part of an operator in upper case. -/
def toUpperCase (text : Str) : Str :=
  text.map fun char ↦ if 97 ≤ char && char ≤ 122 then char - 32 else char

/-- `TokenType` -/
inductive TokenType
  | operator
  | filter
  | freeText
  deriving DecidableEq

/-- `Token` -/
structure Token where
  type : TokenType
  key : Option Str
  value : Str
  deriving DecidableEq

/-- `isBooleanOp` -/
def isBooleanOp (value : Str) : Bool :=
  toUpperCase value = [79, 82] || toUpperCase value = [65, 78, 68]

/-- The variables of the loop of `splitSearchIntoTokens`; `quoteType` and `endOfPrevWord` are empty
at first. -/
structure SplitState where
  tokens : List Str
  token : Str
  endOfPrevWord : Option CodeUnit
  quoteType : Option CodeUnit
  quoteEnclosed : Bool

namespace SplitState

def initial : SplitState := ⟨[], [], none, none, false⟩

def markEndOfWord (s : SplitState) (char : CodeUnit) (nextChar : Option CodeUnit) : SplitState :=
  if nextChar.any isSpace && !isSpace char then { s with endOfPrevWord := some char } else s

def endToken (s : SplitState) (char : CodeUnit) : SplitState :=
  if isSpace char && !s.quoteEnclosed && s.endOfPrevWord ≠ some colon && !s.token.all isSpace then
    { s with
      tokens := s.tokens ++ [trim s.token]
      token := [] }
  else s

def toggleQuote (s : SplitState) (char : CodeUnit) : SplitState :=
  if (char = singleQuote || char = doubleQuote) && (!s.quoteEnclosed || s.quoteType = some char)
  then
    { s with
      quoteEnclosed := !s.quoteEnclosed
      quoteType := if s.quoteEnclosed then s.quoteType else some char }
  else s

def read (s : SplitState) (char : CodeUnit) (nextChar : Option CodeUnit) : SplitState :=
  (({ s with token := s.token ++ [char] }.markEndOfWord char nextChar).endToken char).toggleQuote
    char

def escapes (s : SplitState) (char : CodeUnit) (nextChar : Option CodeUnit) : Bool :=
  s.quoteEnclosed && char = backslash && nextChar = s.quoteType

/-- The loop of `splitSearchIntoTokens`. -/
def loop (s : SplitState) : Str → SplitState
  | [] => s
  | [char] => s.read char none
  | char :: nextChar :: rest =>
    let next := s.read char (some nextChar)
    if next.escapes char (some nextChar) then
      loop { next with token := next.token ++ [nextChar] } rest
    else loop next (nextChar :: rest)

end SplitState

/-- `splitSearchIntoTokens` -/
def splitSearchIntoTokens (query : Str) : List Str :=
  let s := SplitState.initial.loop query
  if trim s.token = [] then s.tokens else s.tokens ++ [trim s.token]

/-- The first loop of `removeSurroundingQuotes`, from `left`. -/
def skipLeft (length left : ℕ) : Str → ℕ
  | [] => left
  | char :: rest =>
    if 2 * left ≤ length ∧ char = doubleQuote then skipLeft length (left + 1) rest else left

/-- The second loop of `removeSurroundingQuotes`, from the end `right + 1`, of the text in reverse.
-/
def skipRight (length stop : ℕ) : Str → ℕ
  | [] => stop
  | char :: rest =>
    if length ≤ 2 * (stop - 1) ∧ char = doubleQuote ∧ rest.head? ≠ some backslash then
      skipRight length (stop - 1) rest
    else stop

/-- `removeSurroundingQuotes` -/
def removeSurroundingQuotes (text : Str) : Str :=
  let length := text.length
  if length ≤ 1 then text
  else (text.take (skipRight length length text.reverse)).drop (skipLeft length 0 text)

/-- `formatQuery` -/
def formatQuery (query : Str) : Str :=
  (query.dropWhile fun char ↦ char = doubleQuote || char = openParen).rdropWhile
    fun char ↦ char = doubleQuote || char = closeParen

/-- `parseFilter`; without a colon the index of the colon is -1. -/
def parseFilter (filter : Str) : Str × Str :=
  if filter.contains colon then
    (removeSurroundingQuotes (filter.takeWhile (· ≠ colon)),
      removeSurroundingQuotes (filter.dropWhile (· ≠ colon)).tail)
  else (removeSurroundingQuotes filter.dropLast, removeSurroundingQuotes filter)

/-- `escapeDoubleQuotes` -/
def escapeDoubleQuotes : Str → Str
  | [] => []
  | [char] => if char = doubleQuote then [backslash, doubleQuote] else [char]
  | char :: next :: rest =>
    if char = backslash then char :: next :: escapeDoubleQuotes rest
    else if char = doubleQuote then backslash :: char :: escapeDoubleQuotes (next :: rest)
    else char :: escapeDoubleQuotes (next :: rest)

/-- The scan of a word for its first colon, from index `i`. -/
def tokenState (i : ℕ) : Str → TokenType
  | [] => .freeText
  | char :: rest =>
    if i = 0 ∧ (char = doubleQuote ∨ char = colon) then .freeText
    else if char = colon then
      if rest.head? = some colon ∨ rest.head? = some space then .freeText else .filter
    else tokenState (i + 1) rest

def trailingParens (token : Str) : Str :=
  if token.contains openParen then [] else token.rtakeWhile (· = closeParen)

def withoutTrailingParens (token : Str) : Str :=
  if token.contains openParen then token else token.rdropWhile (· = closeParen)

/-- `addOp` -/
def addOp (value : Str) : Token := ⟨.operator, none, value⟩

/-- `addFreeText` -/
def addFreeText (value : Str) : Token := ⟨.freeText, none, formatQuery value⟩

/-- `addStringFilter`, without escaping. -/
def addStringFilter (filter : Str) : Token :=
  ⟨.filter, some (parseFilter filter).1, (parseFilter filter).2⟩

def textTokens (token : Str) : List Token :=
  let text := withoutTrailingParens token
  match tokenState 0 token with
  | .filter => [addStringFilter text]
  | _ => if text = [] then [] else [addFreeText text]

def wordTokens (word : Str) : List Token :=
  if isBooleanOp word then [addOp (toUpperCase word)]
  else
    let token := word.dropWhile (· = openParen)
    (word.takeWhile (· = openParen)).map (fun paren ↦ addOp [paren]) ++ textTokens token ++
      (trailingParens token).map fun paren ↦ addOp [paren]

/-- The tokens of a `MutableSearch` from a list of query parts. -/
def parseParts (parts : List Str) : List Token := parts.flatMap wordTokens

/-- The tokens of a `MutableSearch` from a query. -/
def parse (query : Str) : List Token := parseParts (splitSearchIntoTokens query)

def needsQuotes (value : Str) : Bool :=
  value.any fun char ↦ isSpace char || char = openParen || char = closeParen || char = backslash ||
    char = doubleQuote

def inQuotes (value : Str) : Str := doubleQuote :: escapeDoubleQuotes value ++ [doubleQuote]

def quoteIfNeeded (value : Str) : Str := if needsQuotes value then inQuotes value else value

def formatValue (value : Str) : Str :=
  if value = [] then [doubleQuote, doubleQuote] else quoteIfNeeded value

def formatToken (token : Token) : Str :=
  match token.type with
  | .filter => token.key.getD [] ++ colon :: formatValue token.value
  | .freeText => quoteIfNeeded token.value
  | .operator => token.value

/-- `formatString` -/
def formatString (tokens : List Token) : Str :=
  trim (List.intercalate [space] (tokens.map formatToken))

end Sentry.TokenizeSearch
