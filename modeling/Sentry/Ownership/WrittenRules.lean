import Sentry.Ownership.Grammar
import Mathlib.Data.List.DropRight

/-!
# Lines that are written for rules

The parts of a rule that is read are well formed: its type is read before every colon, and its
owners are words, which are in lower case if they are users. The line that is written for such a
rule is read as the same rule, whatever follows it, if the pattern is a word and is not read as a
quoted identifier (`line_ruleText`).
-/

namespace Sentry.Ownership

open List
open Library.Repetition Library.UnicodeEscape

variable {unicode : Unicode} {text word rest type : List ℕ} {c : ℕ}

theorem literal_append (word rest : List ℕ) : literal word (word ++ rest) = some rest := by
  rw [literal, if_pos (prefix_append word rest), drop_left]

theorem literal_cons (c : ℕ) (rest : List ℕ) : literal [c] (c :: rest) = some rest :=
  literal_append [c] rest

theorem eq_append_of_literal (h : literal word text = some rest) : text = word ++ rest := by
  unfold literal at h
  rw [Option.ite_none_right_eq_some, Option.some.injEq] at h
  obtain ⟨⟨tail, rfl⟩, rfl⟩ := h
  rw [drop_left]

theorem literal_cons_of_ne {d : ℕ} (h : c ≠ d) : literal (c :: word) (d :: text) = none := by
  rw [literal, if_neg fun hprefix ↦ h (cons_prefix_cons.mp hprefix).1]

theorem dropSpaces_cons (h : c ≠ space) (rest : List ℕ) : dropSpaces (c :: rest) = c :: rest :=
  dropWhile_cons_of_neg (by simpa using h)

theorem dropSpaces_suffix (text : List ℕ) : dropSpaces text <:+ text := dropWhile_suffix _

def Unspaced (unicode : Unicode) (text : List ℕ) : Prop := ∀ c ∈ text, unicode.isSpace c = false

theorem identifier_eq_some (h : identifier unicode text = some (word, rest)) :
    text = word ++ rest ∧ word ≠ [] ∧ Unspaced unicode word := by
  unfold identifier at h
  have hsplit := takeWhile_append_dropWhile (p := (!unicode.isSpace ·)) (l := text)
  have hunspaced : ∀ c ∈ text.takeWhile (!unicode.isSpace ·), unicode.isSpace c = false := by
    intro c hc
    simpa using mem_takeWhile_imp hc
  cases hword : text.takeWhile (!unicode.isSpace ·) with
  | nil => simp [hword] at h
  | cons c tail =>
    rw [hword] at h hsplit hunspaced
    obtain ⟨rfl, rfl⟩ := Prod.mk.inj (Option.some.inj h)
    exact ⟨hsplit.symm, cons_ne_nil _ _, hunspaced⟩

theorem identifier_append (hword : word ≠ []) (hunspaced : Unspaced unicode word)
    (hc : unicode.isSpace c = true) (rest : List ℕ) :
    identifier unicode (word ++ c :: rest) = some (word, c :: rest) := by
  have hall : ∀ d ∈ word, (!unicode.isSpace d) = true := by
    intro d hd
    rw [hunspaced d hd]
    rfl
  have htake : (word ++ c :: rest).takeWhile (!unicode.isSpace ·) = word := by
    rw [takeWhile_append_of_pos hall, takeWhile_cons_of_neg (by simp [hc]), append_nil]
  have hdrop : (word ++ c :: rest).dropWhile (!unicode.isSpace ·) = c :: rest := by
    rw [dropWhile_append_of_pos hall, dropWhile_cons_of_neg (by simp [hc])]
  unfold identifier
  rw [htake, hdrop]
  cases word with
  | nil => exact absurd rfl hword
  | cons d tail => rfl

theorem identifier_of_isSpace (hc : unicode.isSpace c = true) (rest : List ℕ) :
    identifier unicode (c :: rest) = none := by
  unfold identifier
  rw [takeWhile_cons_of_neg (by simp [hc])]

def IsMatcherType (type : List ℕ) : Prop :=
  ∀ rest, matcherType (type ++ colon :: rest) = some (type, colon :: rest)

theorem matcherType_append (h : word ∈ [url, path, module, codeowners]) (rest : List ℕ) :
    matcherType (word ++ rest) = some (word, rest) := by
  unfold matcherType
  simp only [mem_cons, not_mem_nil, or_false] at h
  rcases h with rfl | rfl | rfl | rfl
  all_goals simp [literal, url, path, module, codeowners, codes]

theorem matcherType_eq_some (h : matcherType text = some (type, rest)) :
    (type ∈ [url, path, module, codeowners] ∧ text = type ++ rest) ∨
      eventTag text = some (type, rest) := by
  rcases Option.or_eq_some_iff.mp h with hword | ⟨-, htags⟩
  · obtain ⟨word, hmem, hliteral⟩ := exists_of_findSome?_eq_some hword
    rw [Option.map_eq_some_iff] at hliteral
    obtain ⟨left, hliteral, heq⟩ := hliteral
    obtain ⟨rfl, rfl⟩ := Prod.mk.inj heq
    exact Or.inl ⟨hmem, eq_append_of_literal hliteral⟩
  · exact Or.inr htags

theorem eventTag_eq_some (h : eventTag text = some (type, rest)) :
    text = type ++ rest ∧ ∃ c run, type = tags ++ c :: run ∧ c ≠ newline ∧ run ≠ [] ∧
      ∀ d ∈ run, d ≠ colon := by
  unfold eventTag at h
  cases hliteral : literal tags text with
  | none =>
    rw [hliteral] at h
    exact absurd h.symm (Option.some_ne_none _)
  | some after =>
    rw [hliteral] at h
    cases after with
    | nil => exact absurd h.symm (Option.some_ne_none _)
    | cons c after =>
      simp only [Option.ite_none_right_eq_some, Option.some.injEq, Prod.mk.injEq] at h
      obtain ⟨⟨hc, hrun⟩, rfl, rfl⟩ := h
      refine ⟨?_, c, _, rfl, hc, hrun, fun d hd ↦ by simpa using mem_takeWhile_imp hd⟩
      rw [append_assoc, cons_append, takeWhile_append_dropWhile]
      exact eq_append_of_literal hliteral

theorem eventTag_append {run : List ℕ} (hc : c ≠ newline) (hrun : run ≠ [])
    (hcolon : ∀ d ∈ run, d ≠ colon) (rest : List ℕ) :
    eventTag (tags ++ c :: run ++ colon :: rest) = some (tags ++ c :: run, colon :: rest) := by
  have hall : ∀ d ∈ run, decide (d ≠ colon) = true := fun d hd ↦ decide_eq_true (hcolon d hd)
  have htake : (run ++ colon :: rest).takeWhile (· ≠ colon) = run := by
    rw [takeWhile_append_of_pos hall, takeWhile_cons_of_neg (by simp), append_nil]
  have hdrop : (run ++ colon :: rest).dropWhile (· ≠ colon) = colon :: rest := by
    rw [dropWhile_append_of_pos hall, dropWhile_cons_of_neg (by simp)]
  unfold eventTag
  rw [append_assoc, literal_append, cons_append]
  simp only
  rw [htake, hdrop, if_pos ⟨hc, hrun⟩]

theorem eq_append_of_matcherType (h : matcherType text = some (type, rest)) :
    text = type ++ rest := by
  rcases matcherType_eq_some h with ⟨-, happend⟩ | htags
  · exact happend
  · exact (eventTag_eq_some htags).1

theorem isMatcherType_of_mem (h : type ∈ [url, path, module, codeowners]) : IsMatcherType type :=
  fun _ ↦ matcherType_append h _

theorem isMatcherType_path : IsMatcherType path := isMatcherType_of_mem (by simp)

theorem isMatcherType_of_matcherType (h : matcherType text = some (type, rest)) :
    IsMatcherType type := by
  rcases matcherType_eq_some h with ⟨hmem, -⟩ | htags
  · exact isMatcherType_of_mem hmem
  · obtain ⟨-, c, run, rfl, hc, hrun, hcolon⟩ := eventTag_eq_some htags
    intro more
    exact eventTag_append hc hrun hcolon more

theorem IsMatcherType.exists_cons (h : IsMatcherType type) :
    ∃ c tail, type = c :: tail ∧ c ≠ space ∧ c ≠ hash ∧ c ≠ carriageReturn ∧ c ≠ newline := by
  rcases matcherType_eq_some (h []) with ⟨hmem, -⟩ | htags
  · simp only [mem_cons, not_mem_nil, or_false] at hmem
    rcases hmem with rfl | rfl | rfl | rfl
    · exact ⟨_, _, rfl, by decide⟩
    · exact ⟨_, _, rfl, by decide⟩
    · exact ⟨_, _, rfl, by decide⟩
    · exact ⟨_, _, rfl, by decide⟩
  · obtain ⟨-, c, run, rfl, -⟩ := eventTag_eq_some htags
    exact ⟨_, _, rfl, by decide⟩

theorem matcherTag_append (h : IsMatcherType type) (rest : List ℕ) :
    matcherTag (type ++ colon :: rest) = (some type, rest) := by
  unfold matcherTag
  rw [h rest]
  have hcolon : literal [colon] (colon :: rest) = some rest := literal_append [colon] rest
  dsimp only
  rw [hcolon]

theorem matcherTag_cases (text : List ℕ) :
    matcherTag text = (none, text) ∨
      ∃ type rest, matcherTag text = (some type, rest) ∧ IsMatcherType type ∧
        text = type ++ colon :: rest := by
  unfold matcherTag
  cases htype : matcherType text with
  | none => exact Or.inl rfl
  | some reading =>
    obtain ⟨type, rest⟩ := reading
    cases hsep : literal [colon] rest with
    | none => exact Or.inl (by simp only [hsep])
    | some left =>
      refine Or.inr ⟨type, left, by simp only [hsep], isMatcherType_of_matcherType htype, ?_⟩
      rw [eq_append_of_matcherType htype, eq_append_of_literal hsep]
      rfl

/-- What the Unicode database says of white space and of the lower case of characters. -/
structure Unicode.Lawful (unicode : Unicode) : Prop where
  isSpace_space : unicode.isSpace space = true
  isSpace_newline : unicode.isSpace newline = true
  lowerAt_ne_nil : ∀ before c after, unicode.lowerAt before c after ≠ []
  lowerAt_unspaced : ∀ before c after, unicode.isSpace c = false →
    Unspaced unicode (unicode.lowerAt before c after)
  hash_notMem_lowerAt : ∀ before c after, c ≠ hash → hash ∉ unicode.lowerAt before c after
  special_lowerAt_le : ∀ before c after, special (unicode.lowerAt before c after) ≤ special [c]
  lowerAt_of_mem_lowerAt : ∀ before c after, ∀ d ∈ unicode.lowerAt before c after,
    ∀ before' after', unicode.lowerAt before' d after' = [d]

section Lower

variable (hunicode : unicode.Lawful) {before : List ℕ}

theorem mem_lowerAfter {d : ℕ} (h : d ∈ unicode.lowerAfter before text) :
    ∃ c ∈ text, ∃ before after, d ∈ unicode.lowerAt before c after := by
  induction text generalizing before with
  | nil => exact absurd h not_mem_nil
  | cons c rest ih =>
    rcases mem_append.mp h with hhead | hrest
    · exact ⟨c, mem_cons_self, before, rest, hhead⟩
    · obtain ⟨e, he, hlower⟩ := ih hrest
      exact ⟨e, mem_cons_of_mem _ he, hlower⟩

theorem lowerAfter_eq_self (h : ∀ d ∈ text, ∀ before after, unicode.lowerAt before d after = [d]) :
    unicode.lowerAfter before text = text := by
  induction text generalizing before with
  | nil => rfl
  | cons c rest ih =>
    rw [Unicode.lowerAfter, h c mem_cons_self, ih fun d hd ↦ h d (mem_cons_of_mem _ hd)]
    rfl

include hunicode

theorem Unicode.Lawful.lower_lower (text : List ℕ) :
    unicode.lower (unicode.lower text) = unicode.lower text := by
  apply lowerAfter_eq_self
  intro d hd before after
  obtain ⟨c, -, before', after', hlower⟩ := mem_lowerAfter hd
  exact hunicode.lowerAt_of_mem_lowerAt before' c after' d hlower before after

theorem Unicode.Lawful.unspaced_lower (h : Unspaced unicode text) :
    Unspaced unicode (unicode.lower text) := by
  intro d hd
  obtain ⟨c, hc, before, after, hlower⟩ := mem_lowerAfter hd
  exact hunicode.lowerAt_unspaced before c after (h c hc) d hlower

theorem Unicode.Lawful.special_lowerAfter_le :
    special (unicode.lowerAfter before text) ≤ special text := by
  induction text generalizing before with
  | nil => exact le_rfl
  | cons c rest ih =>
    rw [Unicode.lowerAfter, special_append, special_cons]
    exact Nat.add_le_add (hunicode.special_lowerAt_le before c rest) ih

theorem Unicode.Lawful.lower_cons (h : c ≠ hash) (rest : List ℕ) :
    ∃ d tail, unicode.lower (c :: rest) = d :: tail ∧ d ≠ hash := by
  have hhash := hunicode.hash_notMem_lowerAt [] c rest h
  cases hlower : unicode.lowerAt [] c rest with
  | nil => exact absurd hlower (hunicode.lowerAt_ne_nil [] c rest)
  | cons d tail =>
    rw [hlower] at hhash
    refine ⟨d, tail ++ unicode.lowerAfter ([] ++ [c]) rest, ?_, fun heq ↦ hhash (by simp [heq])⟩
    rw [Unicode.lower, Unicode.lowerAfter, hlower]
    rfl

end Lower

/-- An owner that may be read. -/
structure OwnerNode.WellFormed (unicode : Unicode) (node : OwnerNode) : Prop where
  ne_nil : node.identifier ≠ []
  unspaced : Unspaced unicode node.identifier
  hash_notMem_head : node.teamPrefix = false → hash ∉ node.identifier.head?

def OwnerNode.written (node : OwnerNode) : List ℕ :=
  (if node.teamPrefix then [hash] else []) ++ node.identifier

theorem owner_eq_some {node : OwnerNode} (h : owner unicode text = some (node, rest)) :
    dropSpaces text = node.written ++ rest ∧ node.WellFormed unicode := by
  unfold owner at h
  cases hliteral : literal [hash] (dropSpaces text) with
  | some after =>
    rw [hliteral] at h
    simp only [Option.map_eq_some_iff, Prod.mk.injEq] at h
    obtain ⟨⟨word, left⟩, hword, rfl, rfl⟩ := h
    obtain ⟨rfl, hne, hunspaced⟩ := identifier_eq_some hword
    refine ⟨?_, hne, hunspaced, fun hteam ↦ by simp at hteam⟩
    rw [eq_append_of_literal hliteral]
    rfl
  | none =>
    rw [hliteral] at h
    simp only [Option.map_eq_some_iff, Prod.mk.injEq] at h
    obtain ⟨⟨word, left⟩, hword, rfl, rfl⟩ := h
    obtain ⟨hsplit, hne, hunspaced⟩ := identifier_eq_some hword
    refine ⟨hsplit, hne, hunspaced, fun _ hhead ↦ ?_⟩
    obtain ⟨tail, rfl⟩ := head?_eq_some_iff.mp hhead
    rw [hsplit] at hliteral
    exact Option.some_ne_none _ ((literal_cons hash (tail ++ left)).symm.trans hliteral)

theorem OwnerNode.written_ne_nil {node : OwnerNode} (h : node.identifier ≠ []) :
    node.written ≠ [] :=
  fun heq ↦ h (append_eq_nil_iff.mp heq).2

theorem shortens_owner (unicode : Unicode) : Shortens (owner unicode) := by
  intro text node rest h
  obtain ⟨hsplit, hwell⟩ := owner_eq_some h
  have htext := length_pos_of_ne_nil (OwnerNode.written_ne_nil hwell.ne_nil)
  have hsuffix := (dropSpaces_suffix text).length_le
  rw [hsplit, length_append] at hsuffix
  omega

def SpaceFollows (unicode : Unicode) (rest : List ℕ) : Prop :=
  ∃ c tail, rest = c :: tail ∧ unicode.isSpace c = true

theorem owner_append (hunicode : unicode.Lawful) {node : OwnerNode} (h : node.WellFormed unicode)
    (hrest : SpaceFollows unicode rest) :
    owner unicode (space :: node.written ++ rest) = some (node, rest) := by
  obtain ⟨teamPrefix, word⟩ := node
  obtain ⟨hne, hunspaced, hhash⟩ := h
  obtain ⟨c, tail, rfl, hc⟩ := hrest
  have hdrop : ∀ {text : List ℕ}, dropSpaces (space :: text) = dropSpaces text := fun {text} ↦
    dropWhile_cons_of_pos (by simp)
  unfold owner
  rw [cons_append, hdrop]
  cases teamPrefix with
  | true =>
    have htext : OwnerNode.written ⟨true, word⟩ ++ c :: tail = hash :: (word ++ c :: tail) := rfl
    rw [htext, dropSpaces_cons (by decide), literal_cons]
    simp only
    rw [identifier_append hne hunspaced hc]
    rfl
  | false =>
    cases word with
    | nil => exact absurd rfl hne
    | cons d word =>
      have hspace : d ≠ space := by
        rintro rfl
        exact absurd hunicode.isSpace_space (by simp [hunspaced space mem_cons_self])
      have htext : OwnerNode.written ⟨false, d :: word⟩ ++ c :: tail = d :: word ++ c :: tail := rfl
      have hliteral : literal [hash] (d :: (word ++ c :: tail)) = none :=
        literal_cons_of_ne fun heq ↦ hhash rfl (by simp [heq])
      rw [htext, cons_append, dropSpaces_cons hspace, hliteral]
      rw [← cons_append, identifier_append hne hunspaced hc]
      rfl

theorem owner_dropSpaces (text : List ℕ) :
    owner unicode (dropSpaces text) = owner unicode text := by
  unfold owner
  rw [show dropSpaces (dropSpaces text) = dropSpaces text from dropWhile_idempotent _ _]

theorem owners_of_many {nodes : List OwnerNode} (hne : nodes ≠ [])
    (h : many (owner unicode) text = (nodes, rest)) : owners unicode text = some (nodes, rest) := by
  have hmany : many (owner unicode) (dropSpaces text) = many (owner unicode) text := by
    cases hread : owner unicode text with
    | none =>
      rw [many_of_none hread, Prod.mk.injEq] at h
      exact absurd h.1.symm hne
    | some reading =>
      rw [many_of_some (shortens_owner unicode) hread,
        many_of_some (shortens_owner unicode) ((owner_dropSpaces text).trans hread)]
  unfold owners
  rw [hmany, h]
  cases nodes with
  | nil => exact absurd rfl hne
  | cons node nodes => rfl

/-- The node that an owner is read as. -/
def Owner.node (owner : Owner) : OwnerNode := ⟨owner.type = .team, owner.identifier⟩

/-- An owner that may have been read: users are in lower case. -/
structure Owner.WellFormed (unicode : Unicode) (owner : Owner) : Prop where
  node : owner.node.WellFormed unicode
  lower : owner.type = .user → unicode.lower owner.identifier = owner.identifier

theorem Owner.written_node (owner : Owner) : owner.node.written = ownerText owner := by
  obtain ⟨type, name⟩ := owner
  cases type with
  | user => rfl
  | team => rfl

theorem Owner.WellFormed.visitOwner_node {owner : Owner} (h : owner.WellFormed unicode) :
    visitOwner unicode owner.node = owner := by
  obtain ⟨type, name⟩ := owner
  cases type with
  | user => exact congrArg (Owner.mk .user) (h.lower rfl)
  | team => rfl

theorem wellFormed_visitOwner (hunicode : unicode.Lawful) {node : OwnerNode}
    (h : node.WellFormed unicode) : (visitOwner unicode node).WellFormed unicode := by
  obtain ⟨teamPrefix, word⟩ := node
  cases teamPrefix with
  | true => exact ⟨h, fun huser ↦ by simp [visitOwner] at huser⟩
  | false =>
    cases word with
    | nil => exact absurd rfl h.ne_nil
    | cons c word =>
      have hc : c ≠ hash := fun heq ↦ h.hash_notMem_head rfl (by simp [heq])
      obtain ⟨d, tail, hlower, hd⟩ := hunicode.lower_cons hc word
      refine ⟨⟨fun heq ↦ ?_, hunicode.unspaced_lower h.unspaced, fun _ ↦ ?_⟩,
        fun _ ↦ hunicode.lower_lower (c :: word)⟩
      · exact cons_ne_nil d tail (hlower.symm.trans heq)
      · show hash ∉ (unicode.lower (c :: word)).head?
        rw [hlower]
        exact fun heq ↦ hd (Option.some.inj heq)

theorem intercalate_space_cons (word : List ℕ) (words : List (List ℕ)) :
    List.intercalate [space] (word :: words) = word ++ words.flatMap (space :: ·) := by
  induction words generalizing word with
  | nil => simp [List.intercalate]
  | cons next words ih =>
    rw [flatMap_cons, cons_append, ← ih next]
    simp [List.intercalate]

theorem ownersText_cons (owner : Owner) (owners : List Owner) :
    ownersText (owner :: owners) =
      ownerText owner ++ owners.flatMap fun other ↦ space :: ownerText other := by
  rw [ownersText, map_cons, intercalate_space_cons, flatMap_map]

theorem owners_written (hunicode : unicode.Lawful) {nodes : List OwnerNode} (hne : nodes ≠ [])
    (h : ∀ node ∈ nodes, node.WellFormed unicode) (rest : List ℕ) :
    owners unicode (nodes.flatMap (fun node ↦ space :: node.written) ++ newline :: rest) =
      some (nodes, newline :: rest) := by
  apply owners_of_many hne
  refine many_flatMap (shortens_owner unicode) (SpaceFollows unicode) ?_ ?_ ?_ ?_
  · intro node more
    exact ⟨space, node.written ++ more, rfl, hunicode.isSpace_space⟩
  · exact fun node hnode more hmore ↦ owner_append hunicode (h node hnode) hmore
  · exact ⟨newline, rest, rfl, hunicode.isSpace_newline⟩
  · unfold owner
    rw [dropSpaces_cons (by decide), literal_cons_of_ne (by decide)]
    rw [identifier_of_isSpace hunicode.isSpace_newline]
    rfl

theorem space_cons_ownersText {written : List Owner} (hne : written ≠ []) :
    space :: ownersText written =
      (written.map Owner.node).flatMap fun node ↦ space :: node.written := by
  cases written with
  | nil => exact absurd rfl hne
  | cons first others =>
    rw [ownersText_cons, flatMap_map]
    simp only [Owner.written_node, flatMap_cons, cons_append]

/-- The node that the line of a rule is read as. -/
def Rule.node (rule : Rule) : RuleNode :=
  ⟨⟨some rule.matcher.type, .identifier rule.matcher.pattern⟩, rule.owners.map Owner.node⟩

/-- A rule that may have been read, apart from its pattern. -/
structure Rule.WellFormed (unicode : Unicode) (rule : Rule) : Prop where
  type : IsMatcherType rule.matcher.type
  owners_ne_nil : rule.owners ≠ []
  owners : ∀ owner ∈ rule.owners, owner.WellFormed unicode

def fromPattern (rule : Rule) (rest : List ℕ) : List ℕ :=
  rule.matcher.pattern ++ space :: (ownersText rule.owners ++ newline :: rest)

/-- A pattern that is read as it is written: it is a word, and it does not begin a quoted identifier
with what follows it. -/
structure Rule.ReadsBack (unicode : Unicode) (rule : Rule) (rest : List ℕ) : Prop where
  ne_nil : rule.matcher.pattern ≠ []
  unspaced : Unspaced unicode rule.matcher.pattern
  not_quoted : quotedIdentifier (fromPattern rule rest) = none

theorem ruleText_append (rule : Rule) (rest : List ℕ) :
    ruleText rule ++ rest = rule.matcher.type ++ colon :: fromPattern rule rest := by
  simp [ruleText, fromPattern]

theorem Rule.WellFormed.visitRule_node {rule : Rule} (h : rule.WellFormed unicode) :
    visitRule unicode rule.node = some rule := by
  have howners : rule.owners.map (fun owner ↦ visitOwner unicode owner.node) = rule.owners :=
    (map_congr_left fun owner howner ↦ (h.owners owner howner).visitOwner_node).trans
      (map_id' _)
  show some (Rule.mk _ _) = _
  rw [show rule.node.owners = rule.owners.map Owner.node from rfl, map_map]
  exact congrArg some (congrArg (Rule.mk rule.matcher) howners)

theorem lineBody_of_isMatcherType (h : IsMatcherType type) (rest : List ℕ) :
    dropSpaces (type ++ colon :: rest) = type ++ colon :: rest ∧
      comment (type ++ colon :: rest) = none ∧
      dropNewline (type ++ colon :: rest) = type ++ colon :: rest := by
  obtain ⟨c, tail, rfl, hspace, hhash, hreturn, hnewline⟩ := h.exists_cons
  refine ⟨dropSpaces_cons hspace _, ?_, if_neg fun hc ↦ hc.elim hreturn hnewline⟩
  show (literal [hash] (c :: (tail ++ colon :: rest))).map _ = none
  rw [literal_cons_of_ne (Ne.symm hhash)]
  rfl

theorem matcher_append (h : IsMatcherType type) (rest : List ℕ) :
    matcher unicode (type ++ colon :: rest) =
      (anyIdentifier unicode rest).map fun (node, rest) ↦ (⟨some type, node⟩, rest) := by
  unfold matcher
  rw [(lineBody_of_isMatcherType h rest).1, matcherTag_append h]

theorem line_written (hunicode : unicode.Lawful) (htype : IsMatcherType type)
    {pattern : List ℕ} (hne : pattern ≠ []) (hunspaced : Unspaced unicode pattern)
    {nodes : List OwnerNode} (hnodes : nodes ≠ []) (hwell : ∀ node ∈ nodes, node.WellFormed unicode)
    (hquoted : quotedIdentifier (pattern ++
      (nodes.flatMap (fun node ↦ space :: node.written) ++ newline :: rest)) = none) :
    line unicode (type ++ colon :: (pattern ++
        (nodes.flatMap (fun node ↦ space :: node.written) ++ newline :: rest))) =
      some (some ⟨⟨some type, .identifier pattern⟩, nodes⟩, rest) := by
  obtain ⟨node, others, rfl⟩ := exists_cons_of_ne_nil hnodes
  set text := (node :: others).flatMap (fun node ↦ space :: node.written) ++ newline :: rest
    with htext
  obtain ⟨hspaces, hcomment, -⟩ := lineBody_of_isMatcherType htype (pattern ++ text)
  have hpattern : anyIdentifier unicode (pattern ++ text) = some (.identifier pattern, text) := by
    unfold anyIdentifier
    rw [hquoted]
    rw [htext, flatMap_cons, cons_append, cons_append,
      identifier_append hne hunspaced hunicode.isSpace_space]
    rfl
  have hrule : rule unicode (type ++ colon :: (pattern ++ text)) =
      some (⟨⟨some type, .identifier pattern⟩, node :: others⟩, newline :: rest) := by
    unfold rule
    rw [hspaces, matcher_append htype, hpattern]
    simp only [Option.map_some]
    rw [htext, owners_written hunicode hnodes hwell]
    rfl
  have hlength : rest.length < (type ++ colon :: (pattern ++ text)).length := by
    simp only [htext, length_append, length_cons]
    omega
  unfold line
  rw [hspaces]
  unfold lineBody
  rw [hcomment, hrule]
  exact if_pos hlength

theorem line_ruleText (hunicode : unicode.Lawful) {rule : Rule} (h : rule.WellFormed unicode)
    (hreads : rule.ReadsBack unicode rest) :
    line unicode (ruleText rule ++ rest) = some (some rule.node, rest) := by
  have hpattern : fromPattern rule rest = rule.matcher.pattern ++
      ((rule.owners.map Owner.node).flatMap (fun node ↦ space :: node.written) ++
        newline :: rest) := by
    rw [fromPattern, ← space_cons_ownersText h.owners_ne_nil, cons_append]
  have hquoted := hreads.not_quoted
  rw [hpattern] at hquoted
  rw [ruleText_append, hpattern]
  refine line_written hunicode h.type hreads.ne_nil hreads.unspaced ?_ ?_ hquoted
  · simpa using h.owners_ne_nil
  · intro node hnode
    obtain ⟨owner, howner, rfl⟩ := mem_map.mp hnode
    exact (h.owners owner howner).node

end Sentry.Ownership
