import Sentry.Library.Peg

/-!
# The grammar of searches

Each rule of the grammar is a parsing expression under its name, with the node that it gives to the
visitor. The nodes keep what their visitors read: of a filter the key, the negation, the operator
and the value.
-/

namespace Sentry.EventSearch.Grammar

open Library (Peg)
open Library.Peg

abbrev Text := List Char

scoped instance lawfulBEqText : LawfulBEq Text := inferInstance

def isLetter (c : Char) : Bool := ('a' ≤ c && c ≤ 'z') || ('A' ≤ c && c ≤ 'Z')

/-- `[0-9]`. -/
def isDigit (c : Char) : Bool := '0' ≤ c && c ≤ '9'

/-- The zeros of the decimal digits of Unicode, of which `\d` is the class. -/
def decimalZeros : List ℕ :=
  [0x30, 0x660, 0x6F0, 0x7C0, 0x966, 0x9E6, 0xA66, 0xAE6, 0xB66, 0xBE6, 0xC66, 0xCE6, 0xD66, 0xDE6,
    0xE50, 0xED0, 0xF20, 0x1040, 0x1090, 0x17E0, 0x1810, 0x1946, 0x19D0, 0x1A80, 0x1A90, 0x1B50,
    0x1BB0, 0x1C40, 0x1C50, 0xA620, 0xA8D0, 0xA900, 0xA9D0, 0xA9F0, 0xAA50, 0xABF0, 0xFF10, 0x104A0,
    0x10D30, 0x11066, 0x110F0, 0x11136, 0x111D0, 0x112F0, 0x11450, 0x114D0, 0x11650, 0x116C0,
    0x11730, 0x118E0, 0x11950, 0x11C50, 0x11D50, 0x11DA0, 0x11F50, 0x16A60, 0x16AC0, 0x16B50,
    0x1D7CE, 0x1D7D8, 0x1D7E2, 0x1D7EC, 0x1D7F6, 0x1E140, 0x1E2F0, 0x1E4F0, 0x1E950, 0x1FBF0]

def decimalValue (c : Char) : Option ℕ :=
  (decimalZeros.find? fun first ↦ first ≤ c.toNat ∧ c.toNat < first + 10).map fun first ↦
    c.toNat - first

/-- `\d`. -/
def isDecimal (c : Char) : Bool := (decimalValue c).isSome

/-- `[a-zA-Z0-9_.-]`. -/
def isKeyChar (c : Char) : Bool := isLetter c || isDigit c || c ∈ ['_', '.', '-']

/-- A letter of a pattern without case: the Kelvin sign is a `k`, and the long s is an `s`. -/
def sameLetter (pattern c : Char) : Bool :=
  c.toLower = pattern || (pattern = 'k' && c = '\u212A') || (pattern = 's' && c = '\u017F')

def wordIgnoringCase : List Text → Peg Char Text
  | [] => failure
  | word :: words => (text (word.mapM fun letter ↦ satisfy (sameLetter letter))) <|>
    wordIgnoringCase words

def oneOf : List Text → Peg Char Text
  | [] => failure
  | word :: words => literal word <|> oneOf words

def char (c : Char) : Peg Char Unit := do
  let _ ← literal [c]

/-- `[\t\n )]|$`. -/
def endValue : Peg Char Unit := (do let _ ← satisfy (· ∈ ['\t', '\n', ' ', ')'])) <|> endOfText

def spaces : Peg Char Text := spanning (· = ' ')

def operator : Peg Char Text :=
  oneOf [['>', '='], ['<', '='], ['>'], ['<'], ['='], ['!', '=']]

def negation : Peg Char Unit := char '!'

/-- `[0-9]+(?:\.[0-9]*)?`. -/
def numeric : Peg Char Text := text do
  let _ ← spanning1 isDigit
  let _ ← opt do
    char '.'
    spanning isDigit

/-- `search_key` -/
inductive KeyNode
  | key (name : Text)
  | quotedKey (name : Text)

/-- `text_key` -/
inductive TextKeyNode
  | explicitTagKey (key : KeyNode)
  | searchKey (key : KeyNode)

def key : Peg Char Text := spanning1 isKeyChar

def quotedKey : Peg Char Text := do
  char '"'
  let name ← spanning1 fun c ↦ isKeyChar c || c = ':'
  char '"'
  return name

def searchKey : Peg Char KeyNode := (KeyNode.key <$> key) <|> (KeyNode.quotedKey <$> quotedKey)

def explicitTagKey : Peg Char KeyNode := do
  let _ ← literal ['t', 'a', 'g', 's']
  char '['
  let key ← searchKey
  char ']'
  return key

def textKey : Peg Char TextKeyNode :=
  (TextKeyNode.explicitTagKey <$> explicitTagKey) <|> (TextKeyNode.searchKey <$> searchKey)

def sep : Peg Char Unit := char ':'

/-- `item (spaces comma spaces !comma item?)*` -/
def itemsOf {α : Type} (item : Peg Char α) : Peg Char (α × List (Option α)) := do
  let first ← item
  let remaining ← star do
    let _ ← spaces
    char ','
    let _ ← spaces
    notAhead (char ',')
    opt item
  return (first, remaining)

/-- `search_value` and `text_in_value` -/
inductive ValueNode
  | quotedValue (text : Text)
  | value (text : Text)

/-- `numeric_value` -/
structure NumericNode where
  sign : Text
  value : Text
  suffix : Text

/-- `('\\"' / [..])*`, where the class is what may stand without a backslash. -/
def quotedText (p : Char → Bool) : Peg Char Text :=
  text (star (literal ['\\', '"'] <|> ((fun c ↦ [c]) <$> satisfy p)))

def quotedValue : Peg Char Text := do
  char '"'
  let body ← quotedText (· ≠ '"')
  char '"'
  return body

/-- `[^()\t\n ]*`. -/
def isValueChar (c : Char) : Bool := c ∉ ['(', ')', '\t', '\n', ' ']

def value : Peg Char Text := spanning isValueChar

def searchValue : Peg Char ValueNode :=
  (ValueNode.quotedValue <$> quotedValue) <|> (ValueNode.value <$> value)

def inValueChar : Peg Char Char := satisfy (· ∉ ['(', ')', ',', ' '])

def inValueEnd : Peg Char Unit := char ']' <|> (do let _ ← spaces; char ',')

def inValueTermination : Peg Char Unit := do
  let _ ← inValueChar
  let _ ← star do
    notAhead inValueEnd
    inValueChar
  inValueEnd

def inValue : Peg Char Text := text do
  plus do
    ahead inValueTermination
    inValueChar

def textInValue : Peg Char ValueNode :=
  (ValueNode.quotedValue <$> quotedValue) <|> (ValueNode.value <$> inValue)

def textInList : Peg Char (ValueNode × List (Option ValueNode)) := do
  char '['
  let items ← itemsOf textInValue
  char ']'
  ahead endValue
  return items

def numericValue : Peg Char NumericNode := do
  let sign ← opt (literal ['-'])
  let value ← numeric
  let suffix ← opt (wordIgnoringCase [['k'], ['m'], ['b']])
  ahead (endValue <|> char ',' <|> char ']')
  return ⟨sign.getD [], value, suffix.getD []⟩

def numericInList : Peg Char (NumericNode × List (Option NumericNode)) := do
  char '['
  let items ← itemsOf numericValue
  char ']'
  ahead endValue
  return items

def booleanValue : Peg Char Text := do
  let value ← wordIgnoringCase
    [['t', 'r', 'u', 'e'], ['1'], ['f', 'a', 'l', 's', 'e'], ['0']]
  ahead endValue
  return value

def dateFormat : Peg Char Unit := do
  let _ ← replicate isDecimal 4
  char '-'
  let _ ← replicate isDecimal 2
  char '-'
  let _ ← replicate isDecimal 2

/-- `\d{1,6}`. -/
def msFormat : Peg Char Unit := do
  let _ ← satisfy isDecimal
  let _ ← opt (satisfy isDecimal)
  let _ ← opt (satisfy isDecimal)
  let _ ← opt (satisfy isDecimal)
  let _ ← opt (satisfy isDecimal)
  let _ ← opt (satisfy isDecimal)

def timeFormat : Peg Char Unit := do
  char 'T'
  let _ ← replicate isDecimal 2
  char ':'
  let _ ← replicate isDecimal 2
  char ':'
  let _ ← replicate isDecimal 2
  let _ ← opt do
    char '.'
    msFormat

def tzFormat : Peg Char Unit := do
  let _ ← satisfy (· ∈ ['+', '-'])
  let _ ← replicate isDecimal 2
  char ':'
  let _ ← replicate isDecimal 2

def iso8601DateFormat : Peg Char Text := text do
  dateFormat
  let _ ← opt timeFormat
  let _ ← opt (char 'Z' <|> tzFormat)
  ahead endValue

def relDateFormat : Peg Char Text := text do
  let _ ← satisfy (· ∈ ['+', '-'])
  let _ ← spanning1 isDigit
  let _ ← satisfy (· ∈ ['w', 'd', 'h', 'm'])
  ahead endValue

def durationFormat : Peg Char (Text × Text) := do
  let value ← numeric
  let unit ← oneOf [['m', 's'], ['s'], ['m', 'i', 'n'], ['m'], ['h', 'r'], ['h'], ['d', 'a', 'y'],
    ['d'], ['w', 'k'], ['w']]
  ahead endValue
  return (value, unit)

def bits : Peg Char Text :=
  wordIgnoringCase [['b', 'i', 't'], ['k', 'i', 'b'], ['m', 'i', 'b'], ['g', 'i', 'b'],
    ['t', 'i', 'b'], ['p', 'i', 'b'], ['e', 'i', 'b'], ['z', 'i', 'b'], ['y', 'i', 'b']]

def bytes : Peg Char Text :=
  wordIgnoringCase [['b', 'y', 't', 'e', 's'], ['n', 'b'], ['k', 'b'], ['m', 'b'], ['g', 'b'],
    ['t', 'b'], ['p', 'b'], ['e', 'b'], ['z', 'b'], ['y', 'b']]

def sizeFormat : Peg Char (Text × Text) := do
  let value ← numeric
  let unit ← bits <|> bytes
  ahead endValue
  return (value, unit)

def percentageFormat : Peg Char Text := do
  let value ← numeric
  char '%'
  return value

/-- `aggregate_param` -/
inductive ParamNode
  | quotedAggregateParam (text : Text)
  | rawAggregateParam (text : Text)

/-- `aggregate_key` -/
structure AggregateNode where
  name : Text
  args : Option (ParamNode × List (Option ParamNode))

def quotedAggregateParam : Peg Char Text := do
  char '"'
  let body ← quotedText (· ∉ ['\t', '\n', '"'])
  char '"'
  return body

def rawAggregateParam : Peg Char Text := spanning1 (· ∉ ['(', ')', '\t', '\n', ',', ' ', '"'])

def aggregateParam : Peg Char ParamNode :=
  (ParamNode.quotedAggregateParam <$> quotedAggregateParam) <|>
    (ParamNode.rawAggregateParam <$> rawAggregateParam)

def functionArgs : Peg Char (ParamNode × List (Option ParamNode)) := itemsOf aggregateParam

def aggregateKey : Peg Char AggregateNode := do
  let name ← key
  char '('
  let _ ← spaces
  let args ← opt functionArgs
  let _ ← spaces
  char ')'
  return ⟨name, args⟩

/-- `filter` -/
inductive FilterNode
  | date (key : KeyNode) (operator value : Text)
  | specificDate (key : KeyNode) (value : Text)
  | relDate (key : KeyNode) (value : Text)
  | duration (negated : Bool) (key : KeyNode) (operator : Option Text) (value : Text × Text)
  | size (negated : Bool) (key : KeyNode) (operator : Option Text) (value : Text × Text)
  | boolean (negated : Bool) (key : KeyNode) (value : Text)
  | numericIn (negated : Bool) (key : KeyNode) (values : NumericNode × List (Option NumericNode))
  | numeric (negated : Bool) (key : KeyNode) (operator : Option Text) (value : NumericNode)
  | aggregateDuration (negated : Bool) (key : AggregateNode) (operator : Option Text)
    (value : Text × Text)
  | aggregatePercentage (negated : Bool) (key : AggregateNode) (operator : Option Text)
    (value : Text)
  | aggregateNumeric (negated : Bool) (key : AggregateNode) (operator : Option Text)
    (value : NumericNode)
  | aggregateSize (negated : Bool) (key : AggregateNode) (operator : Option Text)
    (value : Text × Text)
  | aggregateDate (negated : Bool) (key : AggregateNode) (operator : Option Text) (value : Text)
  | aggregateRelDate (negated : Bool) (key : AggregateNode) (operator : Option Text) (value : Text)
  | has (negated : Bool) (key : KeyNode ⊕ ValueNode)
  | is (negated : Bool) (value : ValueNode)
  | textIn (negated : Bool) (key : TextKeyNode) (values : ValueNode × List (Option ValueNode))
  | text (negated : Bool) (key : TextKeyNode) (operator : Option Text) (value : ValueNode)

/-- `negation?` -/
def optNegation : Peg Char Bool := Option.isSome <$> opt negation

def dateFilter : Peg Char FilterNode := do
  let key ← searchKey
  sep
  let operator ← operator
  let value ← iso8601DateFormat
  return .date key operator value

def specificDateFilter : Peg Char FilterNode := do
  let key ← searchKey
  sep
  let value ← iso8601DateFormat
  return .specificDate key value

def relDateFilter : Peg Char FilterNode := do
  let key ← searchKey
  sep
  let value ← relDateFormat
  return .relDate key value

/-- `negation? key sep operator? value`, a rule with parameters. -/
def comparison {κ α : Type} (key : Peg Char κ) (value : Peg Char α)
    (node : Bool → κ → Option Text → α → FilterNode) : Peg Char FilterNode := do
  let negated ← optNegation
  let key ← key
  sep
  let operator ← opt operator
  let value ← value
  return node negated key operator value

/-- `negation? key sep value`, a rule with parameters. -/
def equality {κ α : Type} (key : Peg Char κ) (value : Peg Char α)
    (node : Bool → κ → α → FilterNode) : Peg Char FilterNode := do
  let negated ← optNegation
  let key ← key
  sep
  let value ← value
  return node negated key value

def durationFilter : Peg Char FilterNode := comparison searchKey durationFormat .duration
def sizeFilter : Peg Char FilterNode := comparison searchKey sizeFormat .size
def booleanFilter : Peg Char FilterNode := equality searchKey booleanValue .boolean
def numericInFilter : Peg Char FilterNode := equality searchKey numericInList .numericIn
def numericFilter : Peg Char FilterNode := comparison searchKey numericValue .numeric

def aggregateDurationFilter : Peg Char FilterNode :=
  comparison aggregateKey durationFormat .aggregateDuration

def aggregateSizeFilter : Peg Char FilterNode :=
  comparison aggregateKey sizeFormat .aggregateSize

def aggregatePercentageFilter : Peg Char FilterNode :=
  comparison aggregateKey percentageFormat .aggregatePercentage

def aggregateNumericFilter : Peg Char FilterNode :=
  comparison aggregateKey numericValue .aggregateNumeric

def aggregateDateFilter : Peg Char FilterNode :=
  comparison aggregateKey iso8601DateFormat .aggregateDate

def aggregateRelDateFilter : Peg Char FilterNode :=
  comparison aggregateKey relDateFormat .aggregateRelDate

def hasFilter : Peg Char FilterNode := do
  let negated ← optNegation
  ahead (literal ['h', 'a', 's', ':'])
  let _ ← searchKey
  sep
  let key ← (Sum.inl <$> searchKey) <|> (Sum.inr <$> searchValue)
  return .has negated key

def isFilter : Peg Char FilterNode := do
  let negated ← optNegation
  ahead (literal ['i', 's', ':'])
  let _ ← searchKey
  sep
  let value ← searchValue
  return .is negated value

def textInFilter : Peg Char FilterNode := equality textKey textInList .textIn
def textFilter : Peg Char FilterNode := comparison textKey searchValue .text

def filter : Peg Char FilterNode :=
  dateFilter <|> specificDateFilter <|> relDateFilter <|> durationFilter <|> sizeFilter <|>
    booleanFilter <|> numericInFilter <|> numericFilter <|> aggregateDurationFilter <|>
    aggregatePercentageFilter <|> aggregateNumericFilter <|> aggregateSizeFilter <|>
    aggregateDateFilter <|> aggregateRelDateFilter <|> hasFilter <|> isFilter <|> textInFilter <|>
    textFilter

/-- `free_text` -/
inductive FreeTextNode
  | freeTextQuoted (text : Text)
  | freeTextUnquoted (text : Text)

/-- `term`, with the text of a group. -/
inductive TermNode
  | booleanOperator (text : Text)
  | parenGroup (text : Text) (terms : List TermNode)
  | filter (filter : FilterNode)
  | freeText (node : FreeTextNode)

/-- `or_operator` and `and_operator` -/
def booleanOperator : Peg Char Text :=
  (do let operator ← wordIgnoringCase [['o', 'r']]; ahead endValue; return operator) <|>
    (do let operator ← wordIgnoringCase [['a', 'n', 'd']]; ahead endValue; return operator)

/-- `free_text`, with parentheses at most as deep as said. -/
def freeText : ℕ → Peg Char FreeTextNode
  | 0 => failure
  | depth + 1 =>
    (FreeTextNode.freeTextQuoted <$> quotedValue) <|>
      (FreeTextNode.freeTextUnquoted <$> text do
        plus do
          notAhead filter
          notAhead booleanOperator
          (do char '('; let _ ← opt (freeText depth); char ')') <|>
            (do let _ ← spanning1 (· ∉ ['(', ')', '\n', ' ']))
          let _ ← spaces)

/-- `paren_group` of a term. -/
def parenGroup (term : Peg Char TermNode) : Peg Char TermNode := fun s ↦
  match (do char '('; let _ ← spaces; let terms ← plus term; char ')'; return terms :
    Peg Char (List TermNode)) s with
  | some (terms, rest) => some (.parenGroup (s.take (s.length - rest.length)) terms, rest)
  | none => none

/-- `term`, with groups at most as deep as said. -/
def term : ℕ → Peg Char TermNode
  | 0 => failure
  | depth + 1 => do
    let node ← (TermNode.booleanOperator <$> booleanOperator) <|> parenGroup (term depth) <|>
      (TermNode.filter <$> filter) <|>
      (TermNode.freeText <$> fun s ↦ freeText (s.length + 1) s)
    let _ ← spaces
    return node

/-- `search`; there is a parse error if something is left. -/
def search (query : Text) : Option (List TermNode) :=
  match (do let _ ← spaces; star (term (query.length + 1)) : Peg Char (List TermNode)) query with
  | some (terms, []) => some terms
  | _ => none

end Sentry.EventSearch.Grammar
