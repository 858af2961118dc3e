import Sentry.Ownership.WrittenRules
import Mathlib.Algebra.Order.BigOperators.Group.List

/-!
# The text of the rules that were read

The rules of a text are written as lines and read again. A pattern is written without quotes, so
that it is read again only if it is a word that does not begin a quoted identifier with what follows
it (`Printable`), and that is exact (`rules_survive_iff`). For the converse, quotes, backslashes and
characters that are not ASCII are counted: no text has fewer of them than its rules, and a text with
a quoted pattern has two more (`special_rulesText_add_quotes_le`).
-/

namespace Sentry.Ownership

open List
open Library.Repetition Library.UnicodeEscape

variable {unicode : Unicode} {text rest : List ℕ}

/-- Every pattern is a word that does not begin a quoted identifier with what is written after
it. -/
def Printable (unicode : Unicode) : List Rule → Prop
  | [] => True
  | rule :: rules => rule.ReadsBack unicode (rulesText rules) ∧ Printable unicode rules

theorem rulesText_cons (rule : Rule) (rules : List Rule) :
    rulesText (rule :: rules) = ruleText rule ++ rulesText rules := flatMap_cons

/-! ### The parts of a line that is read -/

theorem quotedInner_eq_some {inner left : List ℕ} (h : quotedInner text = some (inner, left)) :
    text = inner ++ doubleQuote :: left := by
  fun_induction quotedInner text generalizing inner left with
  | case1 | case3 | case5 => exact absurd h.symm (Option.some_ne_none _)
  | case2 | case4 =>
    rw [Option.some.injEq, Prod.mk.injEq] at h
    rw [← h.1, ← h.2]
    rfl
  | case6 _ _ _ _ ih =>
    obtain ⟨⟨tail, after⟩, hread, heq⟩ := Option.map_eq_some_iff.mp h
    rw [Prod.mk.injEq] at heq
    rw [← heq.1, ← heq.2, ih hread]
    rfl
  | case7 c _ _ _ _ ih =>
    obtain ⟨⟨tail, after⟩, hread, heq⟩ := Option.map_eq_some_iff.mp h
    rw [Prod.mk.injEq] at heq
    rw [← heq.1, ← heq.2, ih hread]
    rfl

def AnyIdentifier.written : AnyIdentifier → List ℕ
  | .quotedIdentifier inner => doubleQuote :: inner ++ [doubleQuote]
  | .identifier word => word

theorem anyIdentifier_eq_some {node : AnyIdentifier}
    (h : anyIdentifier unicode text = some (node, rest)) : text = node.written ++ rest := by
  unfold anyIdentifier at h
  cases hquoted : quotedIdentifier text with
  | some reading =>
    obtain ⟨inner, left⟩ := reading
    rw [hquoted, Option.some.injEq, Prod.mk.injEq] at h
    obtain ⟨rfl, rfl⟩ := h
    cases text with
    | nil => exact absurd hquoted.symm (Option.some_ne_none _)
    | cons c text =>
      rw [quotedIdentifier, Option.ite_none_right_eq_some] at hquoted
      rw [hquoted.1, quotedInner_eq_some hquoted.2]
      simp [AnyIdentifier.written]
  | none =>
    rw [hquoted] at h
    simp only [Option.map_eq_some_iff, Prod.mk.injEq] at h
    obtain ⟨⟨word, left⟩, hword, rfl, rfl⟩ := h
    exact (identifier_eq_some hword).1

theorem owners_eq_some {nodes : List OwnerNode} (h : owners unicode text = some (nodes, rest)) :
    nodes ≠ [] ∧ many (owner unicode) (dropSpaces text) = (nodes, rest) := by
  unfold owners at h
  rcases hmany : many (owner unicode) (dropSpaces text) with ⟨_ | ⟨node, nodes⟩, left⟩
  · rw [hmany] at h
    exact absurd h.symm (Option.some_ne_none _)
  · rw [hmany, Option.some.injEq, Prod.mk.injEq] at h
    obtain ⟨rfl, rfl⟩ := h
    exact ⟨cons_ne_nil _ _, rfl⟩

variable {node : RuleNode}

theorem rule_eq_some (h : rule unicode text = some (node, rest)) :
    ∃ fromIdentifier fromOwners,
      matcherTag (dropSpaces (dropSpaces text)) = (node.matcher.matcherTag, fromIdentifier) ∧
      anyIdentifier unicode fromIdentifier = some (node.matcher.anyIdentifier, fromOwners) ∧
      owners unicode fromOwners = some (node.owners, rest) := by
  unfold rule matcher at h
  rcases htag : matcherTag (dropSpaces (dropSpaces text)) with ⟨tag, fromIdentifier⟩
  rw [htag] at h
  cases hname : anyIdentifier unicode fromIdentifier with
  | none => simp [hname] at h
  | some reading =>
    obtain ⟨name, fromOwners⟩ := reading
    simp only [hname, Option.map_some, Option.map_eq_some_iff, Prod.mk.injEq] at h
    obtain ⟨⟨nodes, left⟩, howners, rfl, rfl⟩ := h
    exact ⟨fromIdentifier, fromOwners, rfl, hname, howners⟩

theorem dropNewline_suffix (text : List ℕ) : dropNewline text <:+ text := by
  cases text with
  | nil => exact suffix_rfl
  | cons c rest =>
    rw [dropNewline]
    split
    next => exact suffix_cons c rest
    next => exact suffix_rfl

variable {read : Option RuleNode}

theorem line_eq_some (h : line unicode text = some (read, rest)) :
    (dropNewline (lineBody unicode (dropSpaces text)).2).length < text.length ∧
      read = (lineBody unicode (dropSpaces text)).1 ∧
      rest = dropNewline (lineBody unicode (dropSpaces text)).2 := by
  unfold line at h
  simp only [Option.ite_none_right_eq_some, Option.some.injEq, Prod.mk.injEq] at h
  exact ⟨h.1, h.2.1.symm, h.2.2.symm⟩

theorem shortens_line (unicode : Unicode) : Shortens (line unicode) := by
  intro text read rest h
  obtain ⟨hlength, -, rfl⟩ := line_eq_some h
  exact hlength

theorem lineBody_cases (unicode : Unicode) (text : List ℕ) :
    ((lineBody unicode text).1 = none ∧ (lineBody unicode text).2 <:+ text) ∨
      ∃ node left, rule unicode text = some (node, left) ∧
        lineBody unicode text = (some node, left) := by
  unfold lineBody
  cases hcomment : comment text with
  | some left =>
    refine Or.inl ⟨rfl, ?_⟩
    obtain ⟨after, hliteral, rfl⟩ := Option.map_eq_some_iff.mp hcomment
    rw [eq_append_of_literal hliteral]
    exact (dropWhile_suffix _).trans (suffix_append _ _)
  | none =>
    cases hrule : rule unicode text with
    | none => exact Or.inl ⟨rfl, suffix_rfl⟩
    | some reading => exact Or.inr ⟨reading.1, reading.2, rfl, rfl⟩

theorem rule_of_line (h : line unicode text = some (some node, rest)) :
    ∃ left, rule unicode (dropSpaces text) = some (node, left) ∧ rest = dropNewline left := by
  obtain ⟨-, hnode, rfl⟩ := line_eq_some h
  rcases lineBody_cases unicode (dropSpaces text) with ⟨hnone, -⟩ |
    ⟨node', left, hrule, hbody⟩
  · exact absurd (hnode.trans hnone) (Option.some_ne_none node)
  · rw [hbody] at hnode ⊢
    rw [Option.some.inj hnode]
    exact ⟨left, hrule, rfl⟩

/-! ### Rules that are read are well formed -/

theorem mapM_eq_some_iff {α β : Type*} {f : α → Option β} {l : List α} {l' : List β} :
    l.mapM f = some l' ↔ l.map f = l'.map some := by
  induction l generalizing l' with
  | nil =>
    cases l' with
    | nil | cons => simp
  | cons a l ih =>
    cases l' with
    | nil => simp [Option.bind_eq_some_iff]
    | cons b l' => simp [Option.bind_eq_some_iff, ← ih]

variable {rules : List Rule}

theorem parseRules_eq_some_iff : parseRules unicode text = some rules ↔
    (many (line unicode) text).2 = [] ∧
      ((many (line unicode) text).1.filterMap id).map (visitRule unicode) = rules.map some := by
  unfold parseRules
  rcases many (line unicode) text with ⟨nodes, _ | ⟨c, left⟩⟩
  · simp [mapM_eq_some_iff]
  · simp

theorem visitRule_eq_some {rule : Rule} (h : visitRule unicode node = some rule) :
    visitAnyIdentifier unicode node.matcher.anyIdentifier = some rule.matcher.pattern ∧
      rule.matcher.type = node.matcher.matcherTag.getD path ∧
      rule.owners = node.owners.map (visitOwner unicode) := by
  obtain ⟨pattern, hpattern, rfl⟩ := Option.map_eq_some_iff.mp h
  exact ⟨hpattern, rfl, rfl⟩

variable {written : Rule}

theorem wellFormed_of_line (hunicode : unicode.Lawful)
    (h : line unicode text = some (some node, rest))
    (hvisit : visitRule unicode node = some written) : written.WellFormed unicode := by
  obtain ⟨left, hrule, -⟩ := rule_of_line h
  obtain ⟨fromIdentifier, fromOwners, htag, -, howners⟩ := rule_eq_some hrule
  obtain ⟨-, htype, hmap⟩ := visitRule_eq_some hvisit
  obtain ⟨hne, hmany⟩ := owners_eq_some howners
  refine ⟨?_, ?_, ?_⟩
  · rw [htype]
    rcases matcherTag_cases (dropSpaces (dropSpaces (dropSpaces text))) with hnone |
      ⟨type, after, hsome, htype, -⟩
    · rw [← (Prod.mk.inj (hnone.symm.trans htag)).1]
      exact isMatcherType_path
    · rw [← (Prod.mk.inj (hsome.symm.trans htag)).1]
      exact htype
  · rw [hmap]
    exact fun hnil ↦ hne (map_eq_nil_iff.mp hnil)
  · intro owner howner
    rw [hmap] at howner
    obtain ⟨ownerNode, hmem, rfl⟩ := mem_map.mp howner
    have hwell := forall_mem_many (shortens_owner unicode)
      (OwnerNode.WellFormed unicode) (fun _ _ _ hread ↦ (owner_eq_some hread).2)
      (dropSpaces fromOwners)
    rw [hmany] at hwell
    exact wellFormed_visitOwner hunicode (hwell ownerNode hmem)

theorem wellFormed_of_parseRules (hunicode : unicode.Lawful)
    (h : parseRules unicode text = some rules) : ∀ rule ∈ rules, rule.WellFormed unicode := by
  intro rule hrule
  obtain ⟨-, hmap⟩ := parseRules_eq_some_iff.mp h
  have hmem : some rule ∈ rules.map some := mem_map_of_mem hrule
  rw [← hmap] at hmem
  obtain ⟨node, hnode, hvisit⟩ := mem_map.mp hmem
  obtain ⟨read, hread, rfl⟩ := mem_filterMap.mp hnode
  refine forall_mem_many (shortens_line unicode) (fun read ↦ ∀ node written, read = some node →
    visitRule unicode node = some written → written.WellFormed unicode) ?_ text _ hread node rule
    rfl hvisit
  rintro text read rest hline node written rfl hvisit
  exact wellFormed_of_line hunicode hline hvisit

/-! ### Counting special characters -/

def AnyIdentifier.quotes : AnyIdentifier → ℕ
  | .quotedIdentifier _ => 2
  | .identifier _ => 0

def RuleNode.cost (node : RuleNode) : ℕ :=
  special (node.matcher.matcherTag.getD path) + special node.matcher.anyIdentifier.written +
    (node.owners.map fun owner ↦ special owner.identifier).sum

theorem special_owner_le {node : OwnerNode} (h : owner unicode text = some (node, rest)) :
    special node.identifier + special rest ≤ special text := by
  have hsuffix := special_le_of_suffix (dropSpaces_suffix text)
  rw [(owner_eq_some h).1, OwnerNode.written, special_append, special_append] at hsuffix
  omega

theorem special_dropSpaces_le (text : List ℕ) : special (dropSpaces text) ≤ special text :=
  special_le_of_suffix (dropSpaces_suffix text)

theorem special_matcherTag_le (text : List ℕ) :
    special ((matcherTag text).1.getD path) + special (matcherTag text).2 ≤ special text := by
  rcases matcherTag_cases text with hnone | ⟨type, rest, hsome, -, htext⟩
  · rw [hnone]
    exact (Nat.zero_add _).le
  · rw [hsome, htext, special_append, special_cons]
    exact Nat.add_le_add_left (Nat.le_add_left _ _) _

theorem cost_rule_le (h : rule unicode text = some (node, rest)) :
    node.cost + special rest ≤ special text := by
  obtain ⟨fromIdentifier, fromOwners, htag, hname, howners⟩ := rule_eq_some h
  have htype := special_matcherTag_le (dropSpaces (dropSpaces text))
  rw [htag] at htype
  have hidentifier := congrArg special (anyIdentifier_eq_some hname)
  rw [special_append] at hidentifier
  have hsum := sum_cost_add_weight_le (shortens_owner unicode)
    (fun _ _ _ hread ↦ special_owner_le hread) (dropSpaces fromOwners)
  rw [(owners_eq_some howners).2] at hsum
  simp only at htype hsum
  have hspaces := special_dropSpaces_le text
  have hspaces' := special_dropSpaces_le (dropSpaces text)
  have hspaces'' := special_dropSpaces_le fromOwners
  unfold RuleNode.cost
  omega

def lineCost : Option RuleNode → ℕ
  | none => 0
  | some node => node.cost

theorem lineCost_line_le (h : line unicode text = some (read, rest)) :
    lineCost read + special rest ≤ special text := by
  obtain ⟨-, rfl, rfl⟩ := line_eq_some h
  have hspaces := special_dropSpaces_le text
  have hnewline :=
    special_le_of_suffix (dropNewline_suffix (lineBody unicode (dropSpaces text)).2)
  rcases lineBody_cases unicode (dropSpaces text) with ⟨hnone, hsuffix⟩ |
    ⟨node, left, hrule, hbody⟩
  · have hrest := special_le_of_suffix hsuffix
    rw [hnone, lineCost]
    omega
  · have hcost := cost_rule_le hrule
    rw [hbody] at hnewline ⊢
    show node.cost + special (dropNewline left) ≤ special text
    simp only at hnewline
    omega

theorem special_visitAnyIdentifier_le {node : AnyIdentifier} {pattern : List ℕ}
    (h : visitAnyIdentifier unicode node = some pattern) :
    special pattern + node.quotes ≤ special node.written := by
  cases node with
  | quotedIdentifier inner =>
    have hdecode := special_decode_encode_le h
    rw [AnyIdentifier.written, special_append, special_cons, special_doubleQuote]
    show special pattern + 2 ≤ _
    omega
  | identifier word =>
    rw [← Option.some.inj h]
    exact le_rfl

theorem special_ownerText (owner : Owner) :
    special (ownerText owner) = special owner.identifier := by
  obtain ⟨type, name⟩ := owner
  cases type with
  | user => rfl
  | team =>
    show special (hash :: name) = special name
    rw [special_cons]
    exact Nat.zero_add _

theorem special_ownersText (owners : List Owner) :
    special (ownersText owners) = (owners.map fun owner ↦ special owner.identifier).sum := by
  cases owners with
  | nil => rfl
  | cons owner owners =>
    have hothers : special (owners.flatMap fun other ↦ space :: ownerText other) =
        (owners.map fun other ↦ special other.identifier).sum := by
      rw [special, countP_flatMap]
      refine congrArg List.sum (map_congr_left fun other _ ↦ ?_)
      show special (space :: ownerText other) = special other.identifier
      rw [special_cons, special_ownerText]
      exact Nat.zero_add _
    rw [ownersText_cons, special_append, special_ownerText, hothers, map_cons, sum_cons]

theorem special_visitOwner_le (hunicode : unicode.Lawful) (node : OwnerNode) :
    special (visitOwner unicode node).identifier ≤ special node.identifier := by
  unfold visitOwner
  cases node.teamPrefix with
  | true => exact le_rfl
  | false => exact hunicode.special_lowerAfter_le

theorem special_ruleText_le (hunicode : unicode.Lawful)
    (h : visitRule unicode node = some written) :
    special (ruleText written) + node.matcher.anyIdentifier.quotes ≤ node.cost := by
  obtain ⟨hpattern, htype, howners⟩ := visitRule_eq_some h
  have hidentifier := special_visitAnyIdentifier_le hpattern
  have hsum : (written.owners.map fun owner ↦ special owner.identifier).sum ≤
      (node.owners.map fun owner ↦ special owner.identifier).sum := by
    rw [howners, map_map]
    exact sum_le_sum fun owner _ ↦ special_visitOwner_le hunicode owner
  have htext : special (ruleText written) = special written.matcher.type +
      special written.matcher.pattern + special (ownersText written.owners) := by
    have hcolon : special [colon] = 0 := rfl
    have hspace : special [space] = 0 := rfl
    have hnewline : special [newline] = 0 := rfl
    rw [ruleText, special_append, special_append, special_append, special_cons, special_cons space,
      hcolon, hspace, hnewline]
    omega
  rw [htext, htype, special_ownersText]
  unfold RuleNode.cost
  omega

theorem special_rulesText_add_quotes_le (hunicode : unicode.Lawful)
    (h : parseRules unicode text = some rules) :
    special (rulesText rules) + (((many (line unicode) text).1.filterMap id).map
      fun node ↦ node.matcher.anyIdentifier.quotes).sum ≤ special text := by
  have hsum := sum_cost_add_weight_le (shortens_line unicode)
    (fun _ _ _ hread ↦ lineCost_line_le hread) text
  have hcost : ∀ reads : List (Option RuleNode),
      (reads.map lineCost).sum = ((reads.filterMap id).map RuleNode.cost).sum := by
    intro reads
    induction reads with
    | nil => rfl
    | cons read reads ih =>
      cases read with
      | none => exact (Nat.zero_add _).trans ih
      | some node => exact congrArg (node.cost + ·) ih
  rw [hcost] at hsum
  refine le_trans ?_ ((Nat.le_add_right _ _).trans hsum)
  have hmap := (parseRules_eq_some_iff.mp h).2
  generalize (many (line unicode) text).1.filterMap id = nodes at hmap
  clear h hsum
  induction nodes generalizing rules with
  | nil =>
    rw [map_nil, eq_comm, map_eq_nil_iff] at hmap
    subst hmap
    exact le_rfl
  | cons node nodes ih =>
    cases rules with
    | nil => simp at hmap
    | cons written rules =>
      rw [map_cons, map_cons, List.cons.injEq] at hmap
      have hrule := special_ruleText_le hunicode hmap.1
      have hrules := ih hmap.2
      rw [rulesText_cons, special_append, map_cons, sum_cons, map_cons, sum_cons]
      omega

/-! ### Reading the text of rules -/

section

variable (hunicode : unicode.Lawful) (hwell : ∀ rule ∈ rules, rule.WellFormed unicode)
  (h : Printable unicode rules)

include hunicode hwell h

theorem many_line_rulesText :
    many (line unicode) (rulesText rules) = (rules.map fun rule ↦ some rule.node, []) := by
  induction rules with
  | nil => rfl
  | cons rule rules ih =>
    have hline := line_ruleText hunicode (hwell rule mem_cons_self) h.1
    rw [rulesText_cons, many_of_some (shortens_line unicode) hline,
      ih (fun other hother ↦ hwell other (mem_cons_of_mem _ hother)) h.2]
    rfl

theorem parseRules_rulesText : parseRules unicode (rulesText rules) = some rules := by
  rw [parseRules_eq_some_iff, many_line_rulesText hunicode hwell h, filterMap_map]
  refine ⟨rfl, ?_⟩
  rw [show (id ∘ fun rule : Rule ↦ some rule.node) = some ∘ Rule.node from rfl,
    filterMap_eq_map, map_map]
  exact map_congr_left fun rule hrule ↦ (hwell rule hrule).visitRule_node

end

theorem exists_of_line_ruleText (hwell : written.WellFormed unicode) {left : List ℕ}
    (h : line unicode (ruleText written ++ rest) = some (read, left)) :
    ∃ node after, read = some node ∧
      anyIdentifier unicode (fromPattern written rest) =
        some (node.matcher.anyIdentifier, after) := by
  obtain ⟨hspaces, hcomment, hnewline⟩ :=
    lineBody_of_isMatcherType hwell.type (fromPattern written rest)
  obtain ⟨hlength, hread, -⟩ := line_eq_some h
  rw [ruleText_append, hspaces] at hlength hread
  cases hrule : rule unicode (written.matcher.type ++ colon :: fromPattern written rest) with
  | none =>
    unfold lineBody at hlength
    rw [hcomment, hrule] at hlength
    rw [hnewline] at hlength
    exact absurd hlength (lt_irrefl _)
  | some reading =>
    obtain ⟨node, stop⟩ := reading
    unfold lineBody at hread
    rw [hcomment, hrule] at hread
    obtain ⟨fromIdentifier, fromOwners, htag, hname, -⟩ := rule_eq_some hrule
    rw [hspaces, hspaces, matcherTag_append hwell.type] at htag
    rw [(Prod.mk.inj htag).2]
    exact ⟨node, fromOwners, hread, hname⟩

theorem readsBack_of_identifier {after : List ℕ}
    (h : anyIdentifier unicode (fromPattern written rest) =
      some (.identifier written.matcher.pattern, after)) : written.ReadsBack unicode rest := by
  unfold anyIdentifier at h
  cases hquoted : quotedIdentifier (fromPattern written rest) with
  | some reading => simp [hquoted] at h
  | none =>
    rw [hquoted] at h
    simp only [Option.map_eq_some_iff, Prod.mk.injEq, AnyIdentifier.identifier.injEq] at h
    obtain ⟨⟨word, left⟩, hword, hpattern, -⟩ := h
    obtain ⟨-, hne, hunspaced⟩ := identifier_eq_some hword
    exact ⟨hpattern ▸ hne, hpattern ▸ hunspaced, hquoted⟩

theorem printable_of_many_line (hunicode : unicode.Lawful)
    (hwell : ∀ rule ∈ rules, rule.WellFormed unicode) {reads : List (Option RuleNode)}
    (hmany : many (line unicode) (rulesText rules) = (reads, []))
    (hmap : (reads.filterMap id).map (visitRule unicode) = rules.map some)
    (hquotes : ∀ node ∈ reads.filterMap id, node.matcher.anyIdentifier.quotes = 0) :
    Printable unicode rules := by
  induction rules generalizing reads with
  | nil => trivial
  | cons written rules ih =>
    have hwritten := hwell written mem_cons_self
    rw [rulesText_cons] at hmany
    cases hread : line unicode (ruleText written ++ rulesText rules) with
    | none =>
      rw [many_of_none hread] at hmany
      have hnil := (append_eq_nil_iff.mp (Prod.mk.inj hmany).2).1
      exact absurd hnil (by simp [ruleText])
    | some reading =>
      obtain ⟨read, left⟩ := reading
      obtain ⟨node, after, rfl, hname⟩ := exists_of_line_ruleText hwritten hread
      rw [many_of_some (shortens_line unicode) hread] at hmany
      obtain ⟨rfl, hleft⟩ := Prod.mk.inj hmany
      have hfilter : ∀ others, (some node :: others).filterMap id = node :: others.filterMap id :=
        fun _ ↦ rfl
      rw [hfilter] at hmap hquotes
      rw [map_cons, map_cons, List.cons.injEq] at hmap
      have hnode := hquotes node mem_cons_self
      have hpattern := (visitRule_eq_some hmap.1).1
      have hreads : written.ReadsBack unicode (rulesText rules) := by
        cases hidentifier : node.matcher.anyIdentifier with
        | quotedIdentifier inner => simp [hidentifier, AnyIdentifier.quotes] at hnode
        | identifier word =>
          rw [hidentifier] at hname hpattern
          rw [Option.some.inj hpattern] at hname
          exact readsBack_of_identifier hname
      obtain ⟨-, rfl⟩ :=
        Prod.mk.inj (Option.some.inj (hread.symm.trans (line_ruleText hunicode hwritten hreads)))
      refine ⟨hreads, ih (fun rule hrule ↦ hwell rule (mem_cons_of_mem _ hrule))
        (Prod.ext rfl hleft) hmap.2 fun other hother ↦ ?_⟩
      exact hquotes other (mem_cons_of_mem _ hother)

/-- The rules of a text survive being written and read again exactly if they are printable. -/
theorem rules_survive_iff (hunicode : unicode.Lawful) {rules : List Rule}
    (h : parseRules unicode text = some rules) :
    (convertSchemaToRulesText (dumpSchema rules)).bind (parseRules unicode) = some rules ↔
      Printable unicode rules := by
  have hwell := wellFormed_of_parseRules hunicode h
  show parseRules unicode (rulesText rules) = some rules ↔ _
  refine ⟨fun hagain ↦ ?_, parseRules_rulesText hunicode hwell⟩
  have hcount := special_rulesText_add_quotes_le hunicode hagain
  obtain ⟨hleft, hmap⟩ := parseRules_eq_some_iff.mp hagain
  refine printable_of_many_line hunicode hwell (Prod.ext rfl hleft) hmap fun node hnode ↦ ?_
  have hquotes := single_le_sum (fun _ _ ↦ Nat.zero_le _) _
    (mem_map_of_mem (f := fun node ↦ node.matcher.anyIdentifier.quotes) hnode)
  have hsum := Nat.le_of_add_le_add_left (hcount.trans (Nat.add_zero _).ge)
  exact Nat.le_zero.mp (hquotes.trans hsum)

/-! ### Quoted patterns that do not survive -/

/-- The Unicode database as far as ASCII. -/
def asciiUnicode : Unicode where
  isSpace c := c = space ∨ (9 ≤ c ∧ c ≤ 13)
  lowerAt _ c _ := if 65 ≤ c ∧ c ≤ 90 then [c + 32] else [c]
  characterNamed _ := none

theorem lawful_asciiUnicode : asciiUnicode.Lawful where
  isSpace_space := rfl
  isSpace_newline := rfl
  lowerAt_ne_nil before c after := by
    show (if _ then _ else _) ≠ []
    split_ifs <;> simp
  lowerAt_unspaced before c after hc := by
    show Unspaced _ (if _ then _ else _)
    split_ifs with hupper
    · intro d hd
      rw [mem_singleton.mp hd]
      show decide (c + 32 = 32 ∨ (9 ≤ c + 32 ∧ c + 32 ≤ 13)) = false
      rw [decide_eq_false_iff_not]
      omega
    · simpa [Unspaced] using hc
  hash_notMem_lowerAt before c after hc := by
    show hash ∉ (if _ then _ else _)
    split_ifs with hupper
    · simp [hash]
      omega
    · simpa [eq_comm] using hc
  special_lowerAt_le before c after := by
    show special (if _ then _ else _) ≤ _
    split_ifs with hupper
    · have hlower : isSpecial (c + 32) = false := by
        simp [isSpecial, doubleQuote, backslash] at hupper ⊢
        omega
      exact (special_eq_zero fun d hd ↦ mem_singleton.mp hd ▸ hlower).le.trans
        (Nat.zero_le _)
    · exact le_rfl
  lowerAt_of_mem_lowerAt before c after d hd before' after' := by
    have hnot : ¬ (65 ≤ d ∧ d ≤ 90) := by
      revert hd
      show d ∈ (if _ then _ else _) → _
      split_ifs with hupper
      · intro hd
        rw [mem_singleton.mp hd]
        omega
      · intro hd
        rwa [mem_singleton.mp hd]
    exact if_neg hnot

/-- A text with the pattern `src/*` and the user `Foo`. -/
def plainText : List ℕ :=
  codes ['s', 'r', 'c', '/', '*', ' ', '#', 't', 'e', 'a', 'm', ' ', 'F', 'o', 'o']

def plainRules : List Rule :=
  [⟨⟨path, codes ['s', 'r', 'c', '/', '*']⟩,
    [⟨.team, codes ['t', 'e', 'a', 'm']⟩, ⟨.user, codes ['f', 'o', 'o']⟩]⟩]

theorem rules_survive_plainText :
    (convertSchemaToRulesText (dumpSchema plainRules)).bind (parseRules asciiUnicode) =
        some plainRules ↔ Printable asciiUnicode plainRules :=
  rules_survive_iff lawful_asciiUnicode
    (show parseRules asciiUnicode plainText = some plainRules by decide)

/-- A text with the quoted pattern `a b`. -/
def spacedText : List ℕ :=
  codes ['p', 'a', 't', 'h', ':', '"', 'a', ' ', 'b', '"', ' ', '#', 't', 'e', 'a', 'm']

theorem not_rules_survive :
    ¬ ∀ (unicode : Unicode) (text : List ℕ) (rules : List Rule), unicode.Lawful →
      parseRules unicode text = some rules →
        (convertSchemaToRulesText (dumpSchema rules)).bind (parseRules unicode) = some rules := by
  intro h
  have hspaced := h asciiUnicode spacedText
    [⟨⟨path, codes ['a', ' ', 'b']⟩, [⟨.team, codes ['t', 'e', 'a', 'm']⟩]⟩]
    lawful_asciiUnicode (by decide)
  exact absurd hspaced (by decide)

end Sentry.Ownership
