import Sentry.EventSearch.WildcardRegex

/-!
# The two ways to test a wildcard

The formatted text of a value that is tested for a prefix, a suffix or an infix keeps backslashes
before escaped characters and the braces of a repetition, which the regular expression has not, so
it is the least word only if there are none of them (`exists_debt`). The test agrees with the
regular expression exactly then, or if the expression asks for a newline (`agrees_iff`).
-/

namespace Sentry.EventSearch

open List
open Library Library.Regex Library.Repetition

variable {value text : List Char} {pieces : List Regex.Token} {kind : WildcardKind}

/-- The test gives the answer of the regular expression on every text without newlines. -/
def Agrees (value : List Char) : Prop :=
  ∀ text, '\n' ∉ text → reMatch (translateWildcard value) text =
    testWildcard (classifyWildcard value) (formatWildcard value (classifyWildcard value)) text

/-- Every backslash is before an asterisk, or at the end. -/
def OnlyAsterisksEscaped (value : List Char) : Prop := ∀ c, .escaped c ∈ tokens value → c = '*'

/-- No brace of the value begins a repetition. -/
def NoRepetition (value : List Char) : Prop :=
  ∀ suffix ∈ (literalTokens value).tails, readBraces suffix = none

/-- The value can be read, and has a newline that is not repeated zero times. -/
def NeedsNewline (value : List Char) : Prop :=
  ∃ literals, literalsOf value = some literals ∧
    ∃ literal ∈ literals, literal.char = '\n' ∧ 1 ≤ literal.least

/-- What `format_wildcard` makes of a piece. -/
def formatPiece : Regex.Token → List Char
  | .bare c => [c]
  | .escaped c => if c = '*' then ['*'] else ['\\', c]

theorem pieceChar_mem_formatPiece (piece : Regex.Token) : pieceChar piece ∈ formatPiece piece := by
  cases piece with
  | bare c => exact mem_singleton_self c
  | escaped c =>
    rw [formatPiece]
    split
    next hstar => exact mem_singleton.mpr hstar
    next => exact mem_cons_of_mem _ (mem_singleton_self c)

theorem pieceChar_unescaped (piece : Regex.Token) :
    pieceChar (unescaped piece) = pieceChar piece := by
  cases piece with
  | bare c => rfl
  | escaped c =>
    rw [unescaped]
    split <;> rfl

theorem translateEscapeSequences_cons_of_head (c : Char) (h : text.head? ≠ some '*') :
    translateEscapeSequences (c :: text) = c :: translateEscapeSequences text := by
  cases text with
  | nil => rfl
  | cons d rest => rw [translateEscapeSequences, if_neg fun hboth ↦ h (congrArg some hboth.2)]

theorem head?_flatMap_pieceText (h : .bare '*' ∉ pieces) :
    (pieces.flatMap pieceText).head? ≠ some '*' := by
  cases pieces with
  | nil => exact Option.some_ne_none _ ∘ Eq.symm
  | cons piece rest =>
    cases piece with
    | bare c => exact fun heq ↦ h (by rw [Option.some.inj heq]; exact mem_cons_self)
    | escaped c => exact fun heq ↦ absurd (Option.some.inj heq) (by decide)

theorem translateEscapeSequences_flatMap (hsound : Sound pieces) (h : .bare '*' ∉ pieces) :
    translateEscapeSequences (pieces.flatMap pieceText) = pieces.flatMap formatPiece := by
  induction pieces with
  | nil => rfl
  | cons piece pieces ih =>
    have hrest := not_mem_of_not_mem_cons h
    have hpieces := ih (sound_cons hsound) hrest
    rw [flatMap_cons, flatMap_cons]
    cases piece with
    | bare c =>
      rw [pieceText, formatPiece, singleton_append,
        translateEscapeSequences_cons_of_head c (head?_flatMap_pieceText hrest), hpieces]
      rfl
    | escaped c =>
      rw [pieceText, formatPiece, cons_append, singleton_append]
      by_cases hstar : c = '*'
      · rw [if_pos hstar, translateEscapeSequences, if_pos ⟨rfl, hstar⟩, hpieces]
        rfl
      · have hhead : (c :: pieces.flatMap pieceText).head? ≠ some '*' :=
          fun heq ↦ hstar (Option.some.inj heq)
        rw [if_neg hstar, translateEscapeSequences_cons_of_head _ hhead,
          translateEscapeSequences_cons_of_head c (head?_flatMap_pieceText hrest), hpieces]
        rfl

variable {inner : List Regex.Token}

theorem formatWildcard_eq (hkind : kind ≠ .other)
    (hsurround : tokens value = surround kind inner) (h : .bare '*' ∉ inner) :
    formatWildcard value kind = inner.flatMap formatPiece := by
  have hsound := sound_tokens value
  have hvalue := flatMap_pieceText_tokens value
  rw [hsurround] at hsound hvalue
  cases kind with
  | prefixKind =>
    rw [surround, flatMap_append] at hvalue
    rw [formatWildcard, ← hvalue, ← translateEscapeSequences_flatMap (sound_of_append hsound) h]
    exact congrArg translateEscapeSequences (dropLast_concat ..)
  | suffixKind =>
    rw [formatWildcard, ← hvalue, ← translateEscapeSequences_flatMap (sound_cons hsound) h]
    rfl
  | infixKind =>
    rw [surround, flatMap_append, flatMap_cons] at hvalue
    rw [formatWildcard, ← hvalue,
      ← translateEscapeSequences_flatMap (sound_of_append (sound_cons hsound)) h]
    exact congrArg translateEscapeSequences (dropLast_concat ..)
  | other => exact absurd rfl hkind

theorem sublist_of_reaches {word : List Char} (h : Reaches kind word text) : word.Sublist text := by
  cases kind with
  | prefixKind => exact List.IsPrefix.sublist h
  | suffixKind => exact List.IsSuffix.sublist h
  | infixKind => exact List.IsInfix.sublist h
  | other => exact h ▸ List.Sublist.refl _

theorem reaches_refl (kind : WildcardKind) (text : List Char) : Reaches kind text text := by
  cases kind with
  | prefixKind => exact prefix_rfl
  | suffixKind => exact suffix_rfl
  | infixKind => exact infix_rfl
  | other => rfl

theorem testWildcard_eq_some {formatted : List Char} (hkind : kind ≠ .other) (answer : Bool) :
    some answer = testWildcard kind formatted text ↔ (answer ↔ Reaches kind formatted text) := by
  have htest : ∀ p : Prop, [Decidable p] → (some answer = some (decide p) ↔ (answer ↔ p)) := by
    intro p hp
    cases answer <;> simp
  cases kind with
  | prefixKind | suffixKind | infixKind => exact htest _
  | other => exact absurd rfl hkind

def single (piece : Regex.Token) : Literal := ⟨pieceChar piece, 1, some 1⟩

theorem many_readLiteral_of_noRepetition
    (h : ∀ suffix, suffix <:+ pieces → readBraces suffix = none) :
    many readLiteral pieces = (pieces.map single, []) := by
  induction pieces with
  | nil => rfl
  | cons piece pieces ih =>
    have hread : readLiteral (piece :: pieces) = some (single piece, pieces) := by
      rw [readLiteral, h _ suffix_rfl, h _ (suffix_cons piece pieces)]
      rfl
    rw [many_of_some shortens_readLiteral hread,
      ih fun suffix hsuffix ↦ h suffix (hsuffix.trans (suffix_cons piece pieces))]
    rfl

theorem isWord_single {word : List Char} :
    IsWord (pieces.map single) word ↔ word = pieces.map pieceChar := by
  induction pieces generalizing word with
  | nil => exact Iff.rfl
  | cons piece pieces ih =>
    constructor
    · rintro ⟨count, rest, hleast, hmost, rfl, hrest⟩
      obtain rfl : count = 1 := le_antisymm (hmost 1 rfl) hleast
      rw [ih.mp hrest]
      rfl
    · rintro rfl
      exact ⟨1, pieces.map pieceChar, le_rfl, fun bound hbound ↦ (Option.some.inj hbound).le, rfl,
        ih.mpr rfl⟩

variable {literals : List Literal}

theorem literalsOf_eq_some_iff :
    literalsOf value = some literals ↔ many readLiteral (literalTokens value) = (literals, []) := by
  rw [literalsOf]
  split
  next all hall =>
    rw [hall]
    exact ⟨fun h ↦ by rw [Option.some.inj h], fun h ↦ congrArg some (Prod.mk.inj h).1⟩
  next all left leftover hall =>
    rw [hall]
    exact iff_of_false (fun h ↦ Option.some_ne_none _ h.symm)
      fun h ↦ cons_ne_nil _ _ (Prod.mk.inj h).2

theorem least_le_of_mem_many (list : List Regex.Token) :
    ∀ literal ∈ (many readLiteral list).1, ∀ bound ∈ literal.most, literal.least ≤ bound := by
  refine forall_mem_many shortens_readLiteral _ ?_ list
  intro list literal rest hread
  obtain ⟨-, ⟨-, piece, rfl, rfl⟩ | ⟨piece, braces, bounds, rfl, -, -, -, rfl, hvalid⟩⟩ :=
    readLiteral_cases hread
  · exact fun bound hbound ↦ (Option.some.inj hbound).le
  · intro bound hbound
    rw [validBounds, decide_eq_true_eq, Option.all_eq_true, Option.all_eq_true] at hvalid
    exact (of_decide_eq_true (hvalid.2 bound hbound)).2

theorem least_le_of_mem_literalsOf (h : literalsOf value = some literals) :
    ∀ literal ∈ literals, ∀ bound ∈ literal.most, literal.least ≤ bound := by
  have hbounds := least_le_of_mem_many (literalTokens value)
  rwa [literalsOf_eq_some_iff.mp h] at hbounds

theorem exists_of_mem_many (list : List Regex.Token) :
    ∀ literal ∈ (many readLiteral list).1, ∃ piece ∈ list, literal.char = pieceChar piece := by
  refine many_induction shortens_readLiteral
    (motive := fun list literals _ ↦
      ∀ literal ∈ literals, ∃ piece ∈ list, literal.char = pieceChar piece) ?_ ?_ list
  · exact fun list _ literal hliteral ↦ absurd hliteral not_mem_nil
  · intro list literal rest literals left hread ih
    refine forall_mem_cons.mpr ⟨?_, fun other hother ↦ ?_⟩
    · obtain ⟨-, ⟨-, piece, rfl, rfl⟩ | ⟨piece, braces, bounds, rfl, -, -, -, rfl, -⟩⟩ :=
        readLiteral_cases hread
      · exact ⟨piece, mem_cons_self, rfl⟩
      · exact ⟨piece, mem_cons_self, rfl⟩
    · obtain ⟨piece, hpiece, hchar⟩ := ih other hother
      exact ⟨piece, mem_of_readLiteral hread hpiece, hchar⟩

theorem exists_of_mem_literalsOf (h : literalsOf value = some literals) :
    ∀ literal ∈ literals, ∃ piece ∈ literalTokens value, literal.char = pieceChar piece := by
  have hchars := exists_of_mem_many (literalTokens value)
  rwa [literalsOf_eq_some_iff.mp h] at hchars

theorem pieceChar_mem_flatMap {write : Regex.Token → List Char}
    (hwrite : ∀ piece, pieceChar piece ∈ write piece) {piece : Regex.Token}
    (h : piece ∈ pieces.map unescaped) : pieceChar piece ∈ pieces.flatMap write := by
  obtain ⟨other, hother, rfl⟩ := mem_map.mp h
  rw [pieceChar_unescaped]
  exact mem_flatMap.mpr ⟨other, hother, hwrite other⟩

theorem exists_ne_nil_of_append_eq {front back word : List Char} {c : Char} {count : ℕ}
    (hopen : '\x7b' ∈ front) (hclose : '\x7d' ∈ front)
    (h : front ++ back = List.replicate count c ++ word) :
    ∃ debt, debt ≠ [] ∧ debt ++ back = word := by
  have hall : ¬ ∀ d ∈ front, d = c := fun hall ↦
    absurd ((hall _ hopen).trans (hall _ hclose).symm) (by decide)
  rcases append_eq_append_iff.mp h with ⟨more, hreplicate, -⟩ | ⟨debt, hfront, hword⟩
  · refine absurd (fun d hd ↦ ?_) hall
    exact (mem_replicate.mp (hreplicate ▸ mem_append_left _ hd)).2
  · refine ⟨debt, fun hnil ↦ hall fun d hd ↦ ?_, hword.symm⟩
    rw [hfront, hnil, append_nil] at hd
    exact (mem_replicate.mp hd).2

theorem exists_debt {write : Regex.Token → List Char}
    (hwrite : ∀ piece, pieceChar piece ∈ write piece) (list : List Regex.Token) :
    (many readLiteral list).2 = [] → ∀ debt back word (pieces : List Regex.Token),
      pieces.map unescaped = list →
      debt ++ (pieces.flatMap write ++ back) = leastWord (many readLiteral list).1 ++ word →
      ∃ left, left ++ back = word ∧ (left = [] → debt = [] ∧
        (∀ piece ∈ pieces, (write piece).length = 1) ∧
          ∀ suffix, suffix <:+ list → readBraces suffix = none) := by
  refine many_induction shortens_readLiteral
    (motive := fun list literals unread ↦ unread = [] →
      ∀ debt back word (pieces : List Regex.Token), pieces.map unescaped = list →
      debt ++ (pieces.flatMap write ++ back) = leastWord literals ++ word →
      ∃ left, left ++ back = word ∧ (left = [] → debt = [] ∧
        (∀ piece ∈ pieces, (write piece).length = 1) ∧
          ∀ suffix, suffix <:+ list → readBraces suffix = none)) ?_ ?_ list
  · rintro list - rfl debt back word pieces hpieces hword
    rw [map_eq_nil_iff.mp hpieces] at hword ⊢
    refine ⟨debt, hword, fun hnil ↦ ⟨hnil, by simp, fun suffix hsuffix ↦ ?_⟩⟩
    rw [suffix_nil.mp hsuffix]
    rfl
  · intro list literal rest literals unread hread ih hunread debt back word pieces hpieces hword
    obtain ⟨hnone, ⟨-, first, rfl, rfl⟩ | ⟨first, braces, bounds, rfl, -, hopen, hclose, rfl, -⟩⟩ :=
      readLiteral_cases hread
    · obtain ⟨piece, others, rfl, rfl, rfl⟩ := map_eq_cons_iff.mp hpieces
      rw [flatMap_cons, append_assoc, ← append_assoc] at hword
      cases hfirst : debt ++ write piece with
      | nil =>
        have hempty := (append_eq_nil_iff.mp hfirst).2
        exact absurd (hempty ▸ hwrite piece) not_mem_nil
      | cons d later =>
        rw [hfirst] at hword
        obtain ⟨left, hleft, hplain⟩ :=
          ih hunread later back word others rfl (List.cons.inj hword).2
        refine ⟨left, hleft, fun hnil ↦ ?_⟩
        obtain ⟨rfl, hothers, hsuffixes⟩ := hplain hnil
        have hlength := congrArg List.length hfirst
        rw [length_append, length_singleton] at hlength
        have hpositive := length_pos_of_mem (hwrite piece)
        refine ⟨eq_nil_of_length_eq_zero (by omega),
          forall_mem_cons.mpr ⟨by omega, hothers⟩, fun suffix hsuffix ↦ ?_⟩
        rcases suffix_cons_iff.mp hsuffix with rfl | hrest
        · exact hnone
        · exact hsuffixes suffix hrest
    · -- The repetition leaves a debt, which nothing after it pays.
      obtain ⟨piece, others, rfl, rfl, hothers⟩ := map_eq_cons_iff.mp hpieces
      obtain ⟨inBraces, after, rfl, rfl, rfl⟩ := map_eq_append_iff.mp hothers
      rw [leastWord, flatMap_cons, flatMap_cons, flatMap_append, append_assoc,
        append_assoc, append_assoc, ← append_assoc, ← append_assoc] at hword
      obtain ⟨owed, hne, hafter⟩ := exists_ne_nil_of_append_eq
        (mem_append_right _ (pieceChar_mem_flatMap hwrite hopen))
        (mem_append_right _ (pieceChar_mem_flatMap hwrite hclose)) hword
      obtain ⟨left, hleft, hplain⟩ := ih hunread owed back word after rfl hafter
      exact ⟨left, hleft, fun hnil ↦ absurd (hplain hnil).1 hne⟩

theorem plain_of_formatted_eq (hinner : literalTokens value = inner.map unescaped)
    (h : literalsOf value = some literals) (hword : inner.flatMap formatPiece = leastWord literals)
    : (∀ c, .escaped c ∈ inner → c = '*') ∧ NoRepetition value := by
  have hread := literalsOf_eq_some_iff.mp h
  have hdebt := exists_debt pieceChar_mem_formatPiece (literalTokens value)
  rw [hread] at hdebt
  obtain ⟨left, hleft, hplain⟩ := hdebt rfl [] [] [] inner hinner.symm (by simpa using hword)
  rw [append_nil] at hleft
  obtain ⟨-, hlengths, hnone⟩ := hplain hleft
  refine ⟨fun c hc ↦ ?_, fun suffix hsuffix ↦ hnone suffix ((mem_tails _ _).mp hsuffix)⟩
  by_contra hstar
  have hlength := hlengths _ hc
  rw [formatPiece, if_neg hstar] at hlength
  simp at hlength

theorem flatMap_formatPiece_of_onlyAsterisksEscaped (h : ∀ c, .escaped c ∈ pieces → c = '*') :
    pieces.flatMap formatPiece = pieces.map pieceChar := by
  rw [map_eq_flatMap]
  refine flatMap_congr fun piece hpiece ↦ ?_
  cases piece with
  | bare c => rfl
  | escaped c =>
    rw [formatPiece, if_pos (h c hpiece), pieceChar, h c hpiece]

theorem escaped_mem_surround_iff {c : Char} :
    .escaped c ∈ surround kind inner ↔ .escaped c ∈ inner := by
  cases kind <;> simp [surround]

theorem agrees_iff_reaches (h : classifyWildcard value ≠ .other)
    (hsurround : tokens value = surround (classifyWildcard value) inner)
    (hinner : .bare '*' ∉ inner) :
    Agrees value ↔ ∃ literals, literalsOf value = some literals ∧
      ∀ text, '\n' ∉ text →
        ((∃ word, IsWord literals word ∧ Reaches (classifyWildcard value) word text) ↔
          Reaches (classifyWildcard value) (inner.flatMap formatPiece) text) := by
  have htest : ∀ text, reMatch (translateWildcard value) text =
      ((literalsOf value).map (items (classifyWildcard value))).map fun items ↦
        matchFrom items true text := fun text ↦ by rw [reMatch, parse_translateWildcard h]
  rw [Agrees, formatWildcard_eq h hsurround hinner]
  cases hliterals : literalsOf value with
  | none =>
    rw [hliterals] at htest
    refine iff_of_false (fun hagrees ↦ ?_) fun ⟨_, hnone, _⟩ ↦ Option.some_ne_none _ hnone.symm
    have hempty := hagrees [] not_mem_nil
    rw [htest] at hempty
    revert hempty h
    cases classifyWildcard value with
    | other => exact fun hother ↦ absurd rfl hother
    | _ => exact fun _ heq ↦ absurd heq.symm (Option.some_ne_none _)
  | some literals =>
    rw [hliterals] at htest
    have heach : ∀ text, '\n' ∉ text → (reMatch (translateWildcard value) text =
        testWildcard (classifyWildcard value) (inner.flatMap formatPiece) text ↔
        ((∃ word, IsWord literals word ∧ Reaches (classifyWildcard value) word text) ↔
          Reaches (classifyWildcard value) (inner.flatMap formatPiece) text)) := by
      intro text htext
      rw [htest, Option.map_some, Option.map_some, testWildcard_eq_some h, matchFrom_items h htext]
    constructor
    · exact fun hagrees ↦ ⟨literals, rfl, fun text htext ↦ (heach text htext).mp
        (hagrees text htext)⟩
    · rintro ⟨_, hsome, hreaches⟩ text htext
      rw [← Option.some.inj hsome] at hreaches
      exact (heach text htext).mpr (hreaches text htext)

theorem not_reaches_of_newline {word : List Char} (hword : '\n' ∈ word) (htext : '\n' ∉ text) :
    ¬ Reaches kind word text := fun h ↦ htext ((sublist_of_reaches h).subset hword)

theorem formatted_eq_leastWord {formatted : List Char}
    (hbounds : ∀ literal ∈ literals, ∀ bound ∈ literal.most, literal.least ≤ bound)
    (hnewline : '\n' ∉ leastWord literals)
    (h : ∀ text, '\n' ∉ text →
      ((∃ word, IsWord literals word ∧ Reaches kind word text) ↔ Reaches kind formatted text)) :
    formatted = leastWord literals := by
  have hsublist : formatted.Sublist (leastWord literals) := sublist_of_reaches
    ((h _ hnewline).mp ⟨_, isWord_leastWord hbounds, reaches_refl kind _⟩)
  obtain ⟨word, hword, hreaches⟩ :=
    (h formatted fun hmem ↦ hnewline (hsublist.subset hmem)).mpr (reaches_refl kind formatted)
  exact hsublist.eq_of_length_le
    ((length_leastWord_le hword).trans (sublist_of_reaches hreaches).length_le)

/-- A value that is tested for a prefix, a suffix or an infix is tested as its regular expression
would if only asterisks are escaped and no brace begins a repetition, or if a newline has to be
there, and otherwise is not. -/
theorem agrees_iff (h : classifyWildcard value ≠ .other) :
    Agrees value ↔ (OnlyAsterisksEscaped value ∧ NoRepetition value) ∨ NeedsNewline value := by
  obtain ⟨inner, hsurround, hinner⟩ := eq_surround h
  have hliteralTokens : literalTokens value = inner.map unescaped := by
    rw [literalTokens, hsurround, filter_surround h hinner]
  have hescaped : OnlyAsterisksEscaped value ↔ ∀ c, .escaped c ∈ inner → c = '*' := by
    rw [OnlyAsterisksEscaped, hsurround]
    exact forall_congr' fun c ↦ by rw [escaped_mem_surround_iff]
  rw [agrees_iff_reaches h hsurround hinner]
  constructor
  · rintro ⟨literals, hliterals, hagrees⟩
    by_cases hnewline : '\n' ∈ leastWord literals
    · obtain ⟨literal, hliteral, hmem⟩ := mem_flatMap.mp hnewline
      obtain ⟨hleast, hchar⟩ := mem_replicate.mp hmem
      exact Or.inr ⟨literals, hliterals, literal, hliteral, hchar.symm, Nat.pos_of_ne_zero hleast⟩
    · have hword := formatted_eq_leastWord (least_le_of_mem_literalsOf hliterals) hnewline hagrees
      have hplain := plain_of_formatted_eq hliteralTokens hliterals hword
      exact Or.inl ⟨hescaped.mpr hplain.1, hplain.2⟩
  · rintro (⟨honly, hrepetition⟩ | ⟨literals, hliterals, literal, hliteral, hchar, hleast⟩)
    · refine ⟨(literalTokens value).map single, literalsOf_eq_some_iff.mpr
        (many_readLiteral_of_noRepetition fun suffix hsuffix ↦
          hrepetition suffix ((mem_tails _ _).mpr hsuffix)), fun text _ ↦ ?_⟩
      have hchars : (literalTokens value).map pieceChar = inner.flatMap formatPiece := by
        rw [flatMap_formatPiece_of_onlyAsterisksEscaped (hescaped.mp honly), hliteralTokens,
          map_map]
        exact map_congr_left fun piece _ ↦ pieceChar_unescaped piece
      rw [← hchars]
      constructor
      · rintro ⟨word, hword, hreaches⟩
        exact isWord_single.mp hword ▸ hreaches
      · exact fun hreaches ↦ ⟨_, isWord_single.mpr rfl, hreaches⟩
    · refine ⟨literals, hliterals, fun text htext ↦ iff_of_false ?_ ?_⟩
      · rintro ⟨word, hword, hreaches⟩
        have hleastWord : '\n' ∈ leastWord literals := mem_flatMap.mpr
          ⟨literal, hliteral, mem_replicate.mpr ⟨by omega, hchar.symm⟩⟩
        exact not_reaches_of_newline (mem_of_mem_leastWord hword hleastWord) htext hreaches
      · obtain ⟨piece, hpiece, hpieceChar⟩ := exists_of_mem_literalsOf hliterals literal hliteral
        rw [hliteralTokens] at hpiece
        refine not_reaches_of_newline ?_ htext
        rw [← hchar, hpieceChar]
        exact pieceChar_mem_flatMap pieceChar_mem_formatPiece hpiece

/-- An escaped asterisk before the last one. -/
theorem agrees_iff_escapedAsterisk : Agrees ['f', 'o', 'o', '\\', '*', '*'] := by
  refine (agrees_iff (by decide)).mpr (Or.inl ⟨fun c hc ↦ ?_, ?_⟩)
  · simpa [tokens] using hc
  · rw [NoRepetition]
    decide

/-- The regular expression of `foo\\\\*` wants one backslash, the test for a prefix wants two. -/
theorem not_agrees : ¬ ∀ value, classifyWildcard value ≠ .other → Agrees value := by
  intro h
  have hagrees := h ['f', 'o', 'o', '\\', '\\', '*'] (by decide)
  exact absurd (hagrees ['f', 'o', 'o', '\\'] (by decide)) (by decide)

end Sentry.EventSearch
