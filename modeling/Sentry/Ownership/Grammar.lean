import Sentry.Library.UnicodeEscape

/-!
# The ownership grammar

Ownership rules are lines of a matcher and its owners. `ownership_grammar` is a parsing expression
grammar, and `OwnershipVisitor` makes rules of its tree. A repetition stops at an element that takes
nothing, and a text is accepted if the repetition of lines stops at its end. The rules are stored as
a schema, from which `convert_schema_to_rules_text` joins a text again.
-/

namespace Sentry.Ownership

open Library.Repetition Library.UnicodeEscape

/-- What the methods of strings look up in the Unicode database. -/
structure Unicode where
  isSpace : ℕ → Bool
  /-- The lower case of a character, which depends on what is before and after it. -/
  lowerAt : List ℕ → ℕ → List ℕ → List ℕ
  characterNamed : Names

def Unicode.lowerAfter (unicode : Unicode) : List ℕ → List ℕ → List ℕ
  | _, [] => []
  | before, c :: rest => unicode.lowerAt before c rest ++ unicode.lowerAfter (before ++ [c]) rest

def Unicode.lower (unicode : Unicode) (text : List ℕ) : List ℕ := unicode.lowerAfter [] text

def space : ℕ := ' '.toNat

def hash : ℕ := '#'.toNat

def colon : ℕ := ':'.toNat

def carriageReturn : ℕ := '\r'.toNat

inductive OwnerType
  | user
  | team
deriving DecidableEq

structure Owner where
  type : OwnerType
  identifier : List ℕ
deriving DecidableEq

structure Matcher where
  type : List ℕ
  pattern : List ℕ
deriving DecidableEq

structure Rule where
  matcher : Matcher
  owners : List Owner
deriving DecidableEq

inductive AnyIdentifier
  | quotedIdentifier (inner : List ℕ)
  | identifier (text : List ℕ)

structure MatcherNode where
  matcherTag : Option (List ℕ)
  anyIdentifier : AnyIdentifier

structure OwnerNode where
  teamPrefix : Bool
  identifier : List ℕ

structure RuleNode where
  matcher : MatcherNode
  owners : List OwnerNode

def url : List ℕ := codes ['u', 'r', 'l']

def path : List ℕ := codes ['p', 'a', 't', 'h']

def module : List ℕ := codes ['m', 'o', 'd', 'u', 'l', 'e']

def codeowners : List ℕ := codes ['c', 'o', 'd', 'e', 'o', 'w', 'n', 'e', 'r', 's']

def tags : List ℕ := codes ['t', 'a', 'g', 's']

def literal (word text : List ℕ) : Option (List ℕ) :=
  if word <+: text then some (text.drop word.length) else none

/-- `_` -/
def dropSpaces (text : List ℕ) : List ℕ := text.dropWhile (· = space)

/-- `tags.[^:]+` -/
def eventTag (text : List ℕ) : Option (List ℕ × List ℕ) :=
  match literal tags text with
  | none => none
  | some [] => none
  | some (c :: rest) =>
    if c ≠ newline ∧ rest.takeWhile (· ≠ colon) ≠ [] then
      some (tags ++ c :: rest.takeWhile (· ≠ colon), rest.dropWhile (· ≠ colon))
    else none

/-- `"url" / "path" / "module" / "codeowners" / event_tag` -/
def matcherType (text : List ℕ) : Option (List ℕ × List ℕ) :=
  ([url, path, module, codeowners].findSome? fun word ↦ (literal word text).map (word, ·)).or
    (eventTag text)

/-- `(matcher_type sep)?` -/
def matcherTag (text : List ℕ) : Option (List ℕ) × List ℕ :=
  match matcherType text with
  | none => (none, text)
  | some (type, rest) =>
    match literal [colon] rest with
    | none => (none, text)
    | some rest => (some type, rest)

/-- `([^"\\]*(?:\\.[^"\\]*)*)"`, with what is between the quotes and what is left. -/
def quotedInner : List ℕ → Option (List ℕ × List ℕ)
  | [] => none
  | [c] => if c = doubleQuote then some ([], []) else none
  | c :: d :: rest =>
    if c = doubleQuote then some ([], d :: rest)
    else if c = backslash then
      if d = newline then none
      else (quotedInner rest).map fun (inner, left) ↦ (c :: d :: inner, left)
    else (quotedInner (d :: rest)).map fun (inner, left) ↦ (c :: inner, left)

def quotedIdentifier : List ℕ → Option (List ℕ × List ℕ)
  | [] => none
  | c :: rest => if c = doubleQuote then quotedInner rest else none

section Unicode

variable (unicode : Unicode)

/-- `\S+` -/
def identifier (text : List ℕ) : Option (List ℕ × List ℕ) :=
  match text.takeWhile (!unicode.isSpace ·) with
  | [] => none
  | c :: word => some (c :: word, text.dropWhile (!unicode.isSpace ·))

/-- `quoted_identifier / identifier` -/
def anyIdentifier (text : List ℕ) : Option (AnyIdentifier × List ℕ) :=
  match quotedIdentifier text with
  | some (inner, rest) => some (.quotedIdentifier inner, rest)
  | none => (identifier unicode text).map fun (word, rest) ↦ (.identifier word, rest)

/-- `_ matcher_tag any_identifier` -/
def matcher (text : List ℕ) : Option (MatcherNode × List ℕ) :=
  match matcherTag (dropSpaces text) with
  | (tag, rest) => (anyIdentifier unicode rest).map fun (node, rest) ↦ (⟨tag, node⟩, rest)

/-- `_ team_prefix identifier` -/
def owner (text : List ℕ) : Option (OwnerNode × List ℕ) :=
  match literal [hash] (dropSpaces text) with
  | some rest => (identifier unicode rest).map fun (word, rest) ↦ (⟨true, word⟩, rest)
  | none => (identifier unicode (dropSpaces text)).map fun (word, rest) ↦ (⟨false, word⟩, rest)

/-- `_ owner+` -/
def owners (text : List ℕ) : Option (List OwnerNode × List ℕ) :=
  match many (owner unicode) (dropSpaces text) with
  | ([], _) => none
  | (node :: nodes, rest) => some (node :: nodes, rest)

/-- `_ matcher owners` -/
def rule (text : List ℕ) : Option (RuleNode × List ℕ) :=
  match matcher unicode (dropSpaces text) with
  | none => none
  | some (matcherNode, rest) =>
    (owners unicode rest).map fun (ownerNodes, rest) ↦ (⟨matcherNode, ownerNodes⟩, rest)

/-- `#[^\r\n]*` -/
def comment (text : List ℕ) : Option (List ℕ) :=
  (literal [hash] text).map (·.dropWhile fun c ↦ c ≠ carriageReturn ∧ c ≠ newline)

/-- `newline?` -/
def dropNewline : List ℕ → List ℕ
  | [] => []
  | c :: rest => if c = carriageReturn ∨ c = newline then rest else c :: rest

/-- `comment / rule / empty` -/
def lineBody (text : List ℕ) : Option RuleNode × List ℕ :=
  match comment text with
  | some rest => (none, rest)
  | none =>
    match rule unicode text with
    | some (node, rest) => (some node, rest)
    | none => (none, text)

/-- `_ (comment / rule / empty) newline?`, which ends the repetition if it takes nothing. -/
def line (text : List ℕ) : Option (Option RuleNode × List ℕ) :=
  match lineBody unicode (dropSpaces text) with
  | (node, rest) =>
    if (dropNewline rest).length < text.length then some (node, dropNewline rest) else none

def visitAnyIdentifier : AnyIdentifier → Option (List ℕ)
  | .quotedIdentifier inner => decode unicode.characterNamed (encode inner)
  | .identifier word => some word

def visitOwner (node : OwnerNode) : Owner :=
  if node.teamPrefix then ⟨.team, node.identifier⟩ else ⟨.user, unicode.lower node.identifier⟩

def visitRule (node : RuleNode) : Option Rule :=
  (visitAnyIdentifier unicode node.matcher.anyIdentifier).map fun pattern ↦
    ⟨⟨node.matcher.matcherTag.getD path, pattern⟩, node.owners.map (visitOwner unicode)⟩

/-- The rules of a text; `none` if it is not accepted. -/
def parseRules (text : List ℕ) : Option (List Rule) :=
  match many (line unicode) text with
  | (nodes, []) => (nodes.filterMap id).mapM (visitRule unicode)
  | (_, _ :: _) => none

end Unicode

def version : ℕ := 1

/-- The dictionary of a schema; the dictionaries in it have the fields of rules. -/
structure Schema where
  version : ℕ
  rules : List Rule

def dumpSchema (rules : List Rule) : Schema := ⟨version, rules⟩

/-- `none` if the version is another one. -/
def loadSchema (schema : Schema) : Option (List Rule) :=
  if schema.version ≠ version then none else some schema.rules

def ownerPrefix : OwnerType → List ℕ
  | .team => [hash]
  | .user => []

def ownerText (owner : Owner) : List ℕ := ownerPrefix owner.type ++ owner.identifier

/-- `' '.join` of the owners. -/
def ownersText (owners : List Owner) : List ℕ :=
  List.intercalate [space] (owners.map ownerText)

def ruleText (rule : Rule) : List ℕ :=
  rule.matcher.type ++ colon :: rule.matcher.pattern ++ space :: ownersText rule.owners ++ [newline]

def rulesText (rules : List Rule) : List ℕ := rules.flatMap ruleText

def convertSchemaToRulesText (schema : Schema) : Option (List ℕ) :=
  (loadSchema schema).map rulesText

end Sentry.Ownership
