import Sentry.EventSearch.WildcardPaths

/-!
# Wildcards as globs

A wildcard stands for any text, every other character for itself (`IsInstance`). The regular
expression of a value is that of the pieces between its wildcards (`parse_of_read`,
`matchFrom_globItems`), but braces are not escaped. It matches the instances of the value, and
nothing else, exactly if no brace begins a repetition in one of the pieces, or if a newline has to
be there (`globSemantics_iff`).
-/

namespace Sentry.EventSearch

open List
open Library Library.Regex Library.Repetition

variable {value text : List Char} {pieces : List Regex.Token}

/-- The text is what the pieces stand for, with some text in the place of every wildcard. -/
def IsInstance : List Regex.Token → List Char → Prop
  | [], text => text = []
  | .bare c :: pieces, text =>
    if c = '*' then ∃ taken rest, text = taken ++ rest ∧ IsInstance pieces rest
    else ∃ rest, text = c :: rest ∧ IsInstance pieces rest
  | .escaped c :: pieces, text => ∃ rest, text = c :: rest ∧ IsInstance pieces rest

/-- The expression compiles, and matches exactly the instances of the value among the texts without
newlines. -/
def HasGlobSemantics (value : List Char) : Prop :=
  ∀ text, '\n' ∉ text → ∃ answer, reMatch (translateWildcard value) text = some answer ∧
    (answer = true ↔ IsInstance (tokens value) text)

/-- The pieces before the first wildcard, and those after each one. -/
def segments : List Regex.Token → List Regex.Token × List (List Regex.Token)
  | [] => ([], [])
  | piece :: pieces =>
    if piece = .bare '*' then ([], (segments pieces).1 :: (segments pieces).2)
    else (piece :: (segments pieces).1, (segments pieces).2)

def segmentsOf (value : List Char) : List (List Regex.Token) :=
  (segments (tokens value)).1 :: (segments (tokens value)).2

def readSegment (segment : List Regex.Token) : List Literal × List Regex.Token :=
  many readLiteral (segment.map unescaped)

/-- No brace begins a repetition between two wildcards. -/
def NoBraces (value : List Char) : Prop :=
  ∀ segment ∈ segmentsOf value, ∀ suffix ∈ (segment.map unescaped).tails, readBraces suffix = none

/-- Every segment can be read, and one has a newline that is not repeated zero times. -/
def HasNewline (value : List Char) : Prop :=
  (∀ segment ∈ segmentsOf value, (readSegment segment).2 = []) ∧
    ∃ segment ∈ segmentsOf value, ∃ literal ∈ (readSegment segment).1,
      literal.char = '\n' ∧ 1 ≤ literal.least

def Spread : List (List Char → Prop) → List Char → Prop
  | [], text => text = []
  | language :: languages, text => ∃ skipped word rest, text = skipped ++ (word ++ rest) ∧
      language word ∧ Spread languages rest

def Anchored (language : List Char → Prop) (languages : List (List Char → Prop))
    (text : List Char) : Prop :=
  ∃ word rest, text = word ++ rest ∧ language word ∧ Spread languages rest

section Spread

variable {α : Type*} {language : α → List Char → Prop} {least : α → List Char}

theorem spread_flatMap (parts : List α) (h : ∀ part ∈ parts, language part (least part)) :
    Spread (parts.map language) (parts.flatMap least) := by
  induction parts with
  | nil => rfl
  | cons part parts ih =>
    rw [forall_mem_cons] at h
    exact ⟨[], least part, parts.flatMap least, rfl, h.1, ih h.2⟩

theorem length_flatMap_le (parts : List α)
    (h : ∀ part ∈ parts, ∀ word, language part word → (least part).length ≤ word.length)
    (hspread : Spread (parts.map language) text) : (parts.flatMap least).length ≤ text.length := by
  induction parts generalizing text with
  | nil => exact Nat.zero_le _
  | cons part parts ih =>
    rw [forall_mem_cons] at h
    obtain ⟨skipped, word, rest, rfl, hword, hrest⟩ := hspread
    have hpart := h.1 word hword
    have hparts := ih h.2 hrest
    rw [flatMap_cons]
    simp only [length_append]
    omega

theorem flatMap_sublist (parts : List α)
    (hspread : Spread (parts.map fun part ↦ (· = least part)) text) :
    (parts.flatMap least).Sublist text := by
  induction parts generalizing text with
  | nil => exact nil_sublist _
  | cons part parts ih =>
    obtain ⟨skipped, word, rest, rfl, rfl, hrest⟩ := hspread
    exact ((ih hrest).append_left _).trans (sublist_append_right _ _)

theorem mem_of_spread {c : Char} {parts : List α} {part : α} (hpart : part ∈ parts)
    (h : ∀ word, language part word → c ∈ word) (hspread : Spread (parts.map language) text) :
    c ∈ text := by
  induction parts generalizing text with
  | nil => exact absurd hpart not_mem_nil
  | cons other parts ih =>
    obtain ⟨skipped, word, rest, rfl, hword, hrest⟩ := hspread
    rcases mem_cons.mp hpart with rfl | hmem
    · exact mem_append_right _ (mem_append_left _ (h word hword))
    · exact mem_append_right _ (mem_append_right _ (ih hmem hrest))

theorem spread_congr {language' : α → List Char → Prop} (parts : List α)
    (h : ∀ part ∈ parts, ∀ word, language part word ↔ language' part word) :
    Spread (parts.map language) text ↔ Spread (parts.map language') text := by
  induction parts generalizing text with
  | nil => exact Iff.rfl
  | cons part parts ih =>
    rw [forall_mem_cons] at h
    simp only [map_cons, Spread, h.1, ih h.2]

end Spread

theorem Anchored.spread {language : List Char → Prop} {languages : List (List Char → Prop)}
    (h : Anchored language languages text) : Spread (language :: languages) text := by
  obtain ⟨word, rest, rfl, hword, hrest⟩ := h
  exact ⟨[], word, rest, rfl, hword, hrest⟩

def segmentText (segment : List Regex.Token) : List Char := segment.map pieceChar

theorem isInstance_iff (pieces : List Regex.Token) (text : List Char) :
    IsInstance pieces text ↔ Anchored (· = segmentText (segments pieces).1)
      ((segments pieces).2.map fun segment ↦ (· = segmentText segment)) text := by
  induction pieces generalizing text with
  | nil =>
    constructor
    · rintro rfl
      exact ⟨[], [], rfl, rfl, rfl⟩
    · rintro ⟨word, rest, rfl, rfl, rfl⟩
      rfl
  | cons piece pieces ih =>
    have hchar : ∀ c : Char, (∃ rest, text = c :: rest ∧ IsInstance pieces rest) ↔
        Anchored (· = c :: segmentText (segments pieces).1)
          ((segments pieces).2.map fun segment ↦ (· = segmentText segment)) text := by
      intro c
      constructor
      · rintro ⟨rest, rfl, hrest⟩
        obtain ⟨word, left, rfl, rfl, hleft⟩ := (ih rest).mp hrest
        exact ⟨_, left, rfl, rfl, hleft⟩
      · rintro ⟨word, left, rfl, rfl, hleft⟩
        exact ⟨_, rfl, (ih _).mpr ⟨_, left, rfl, rfl, hleft⟩⟩
    by_cases hstar : piece = .bare '*'
    · rw [segments, if_pos hstar, hstar, IsInstance, if_pos rfl]
      constructor
      · rintro ⟨taken, rest, rfl, hrest⟩
        obtain ⟨word, left, rfl, hword, hleft⟩ := (ih rest).mp hrest
        exact ⟨[], _, rfl, rfl, taken, word, left, rfl, hword, hleft⟩
      · rintro ⟨word, rest, rfl, rfl, skipped, word, left, rfl, hword, hleft⟩
        exact ⟨skipped, _, rfl, (ih _).mpr ⟨word, left, rfl, hword, hleft⟩⟩
    · rw [segments, if_neg hstar]
      cases piece with
      | bare c =>
        rw [IsInstance, if_neg fun heq ↦ hstar (by rw [heq])]
        exact hchar c
      | escaped c => exact hchar c

theorem star_not_mem_segments (pieces : List Regex.Token) :
    ∀ segment ∈ (segments pieces).1 :: (segments pieces).2, .bare '*' ∉ segment := by
  induction pieces with
  | nil => simp [segments]
  | cons piece pieces ih =>
    rw [forall_mem_cons] at ih
    by_cases hstar : piece = .bare '*'
    · rw [segments, if_pos hstar, forall_mem_cons, forall_mem_cons]
      exact ⟨not_mem_nil, ih⟩
    · rw [segments, if_neg hstar, forall_mem_cons]
      exact ⟨not_mem_cons_of_ne_of_not_mem (Ne.symm hstar) ih.1, ih.2⟩

def carried (segment : List Regex.Token) : List Regex.Token :=
  (segment.map unescaped).map guarded

def globTail : List (List Regex.Token) → List Regex.Token
  | [] => [.bare '$']
  | segment :: others => .bare '.' :: .bare '*' :: (carried segment ++ globTail others)

theorem flatMap_translatePiece_segments (pieces : List Regex.Token) :
    pieces.flatMap translatePiece ++ ['$'] =
      (carried (segments pieces).1 ++ globTail (segments pieces).2).flatMap pieceText := by
  induction pieces with
  | nil => rfl
  | cons piece pieces ih =>
    rw [flatMap_cons, append_assoc, ih]
    by_cases hstar : piece = .bare '*'
    · rw [segments, if_pos hstar, hstar]
      rfl
    · rw [segments, if_neg hstar, translatePiece_eq hstar]
      rfl

theorem backslash_not_mem_globTail (others : List (List Regex.Token)) :
    .bare '\\' ∉ globTail others := by
  have hcarried : ∀ segment : List Regex.Token, .bare '\\' ∉ carried segment := by
    intro segment hmem
    obtain ⟨token, -, heq⟩ := mem_map.mp hmem
    exact guarded_ne_backslash token heq
  induction others with
  | nil => decide
  | cons segment others ih => simp [globTail, hcarried, ih]

theorem tokens_translate (value : List Char) :
    tokens (translateWildcard value) =
      .bare '^' ::
        (carried (segments (tokens value)).1 ++ globTail (segments (tokens value)).2) := by
  have htext : translateWildcard value = (.bare '^' :: (carried (segments (tokens value)).1 ++
      globTail (segments (tokens value)).2)).flatMap pieceText := by
    rw [translateWildcard, translateCharacters_eq, cons_append, flatMap_translatePiece_segments]
    rfl
  rw [htext, tokens_flatMap_pieceText]
  have hcarried : .bare '\\' ∉ carried (segments (tokens value)).1 := by
    intro hmem
    obtain ⟨token, -, heq⟩ := mem_map.mp hmem
    exact guarded_ne_backslash token heq
  simp [hcarried, backslash_not_mem_globTail]

def globItems : List (List Literal) → List Item
  | [] => [.finish]
  | literals :: others => .repeated .any 0 none :: (literals.map Literal.item ++ globItems others)

theorem followsLiterals_globTail (others : List (List Regex.Token)) :
    FollowsLiterals (globTail others) := by
  cases others with
  | nil => exact ⟨_, Or.inr rfl⟩
  | cons segment others => exact ⟨_, Or.inl rfl⟩

variable {segment : List Regex.Token}

theorem literally_of_mem (h : .bare '*' ∉ segment) :
    ∀ piece ∈ segment.map unescaped, Literally piece := by
  intro piece hpiece
  obtain ⟨other, hother, rfl⟩ := mem_map.mp hpiece
  exact literally_unescaped fun heq ↦ h (heq ▸ hother)

theorem many_readItem_segment (hstar : .bare '*' ∉ segment) (others : List (List Regex.Token)) :
    many readItem (carried segment ++ globTail others) =
      if (readSegment segment).2 = [] then
        ((readSegment segment).1.map Literal.item ++ (many readItem (globTail others)).1,
          (many readItem (globTail others)).2)
      else ((readSegment segment).1.map Literal.item,
        (readSegment segment).2.map guarded ++ globTail others) :=
  many_readItem_carried (followsLiterals_globTail others) _ (literally_of_mem hstar)

theorem many_readItem_globTail {others : List (List Regex.Token)}
    (hstar : ∀ segment ∈ others, .bare '*' ∉ segment) :
    ((many readItem (globTail others)).2 = [] ↔ ∀ segment ∈ others, (readSegment segment).2 = []) ∧
    ((∀ segment ∈ others, (readSegment segment).2 = []) →
      (many readItem (globTail others)).1 =
        globItems (others.map fun segment ↦ (readSegment segment).1)) := by
  induction others with
  | nil => exact ⟨iff_of_true rfl (by simp), fun _ ↦ rfl⟩
  | cons segment others ih =>
    rw [forall_mem_cons] at hstar
    obtain ⟨hunread, hitems⟩ := ih hstar.2
    have hdots : many readItem (globTail (segment :: others)) =
        (.repeated .any 0 none :: (many readItem (carried segment ++ globTail others)).1,
          (many readItem (carried segment ++ globTail others)).2) :=
      many_of_some shortens_readItem rfl
    rw [hdots, many_readItem_segment hstar.1]
    by_cases hread : (readSegment segment).2 = []
    · rw [if_pos hread, forall_mem_cons]
      refine ⟨hunread.trans (and_iff_right hread).symm, fun hall ↦ ?_⟩
      rw [hitems hall.2]
      rfl
    · rw [if_neg hread, forall_mem_cons]
      refine ⟨iff_of_false ?_ fun hall ↦ hread hall.1, fun hall ↦ absurd hall.1 hread⟩
      intro hnil
      exact hread (map_eq_nil_iff.mp (append_eq_nil_iff.mp hnil).1)

theorem parse_eq_some_iff {list : List Item} :
    parse (translateWildcard value) = some list ↔
      (∀ segment ∈ segmentsOf value, (readSegment segment).2 = []) ∧
        list = .start :: ((readSegment (segments (tokens value)).1).1.map Literal.item ++
          globItems ((segments (tokens value)).2.map fun segment ↦ (readSegment segment).1)) := by
  have hstar := star_not_mem_segments (tokens value)
  rw [forall_mem_cons] at hstar
  obtain ⟨hunread, hitems⟩ := many_readItem_globTail hstar.2
  have hmany := many_of_some shortens_readItem (congrArg readItem (tokens_translate value))
  rw [many_readItem_segment hstar.1] at hmany
  rw [segmentsOf, forall_mem_cons, parse, hmany]
  by_cases hread : (readSegment (segments (tokens value)).1).2 = []
  · rw [if_pos hread]
    cases hleft : (many readItem (globTail (segments (tokens value)).2)).2 with
    | nil =>
      have hall := hunread.mp hleft
      rw [hitems hall]
      simp only [hread, Option.some.injEq]
      exact ⟨fun heq ↦ ⟨⟨trivial, hall⟩, heq.symm⟩, fun h ↦ h.2.symm⟩
    | cons token left =>
      refine iff_of_false (fun heq ↦ Option.some_ne_none _ heq.symm) fun h ↦ ?_
      rw [hunread.mpr h.1.2] at hleft
      exact cons_ne_nil _ _ hleft.symm
  · rw [if_neg hread]
    cases hleft : (readSegment (segments (tokens value)).1).2 with
    | nil => exact absurd hleft hread
    | cons token left =>
      exact iff_of_false (fun heq ↦ Option.some_ne_none _ heq.symm)
        fun h ↦ cons_ne_nil _ _ h.1.1

theorem start_not_mem_globItems (others : List (List Literal)) : .start ∉ globItems others := by
  induction others with
  | nil => decide
  | cons literals others ih =>
    simp only [globItems, mem_cons, mem_append, mem_map, not_or]
    refine ⟨Item.noConfusion, ?_, ih⟩
    rintro ⟨literal, -, heq⟩
    exact Item.noConfusion heq

theorem start_not_mem_literals (literals : List Literal) (others : List (List Literal)) :
    .start ∉ literals.map Literal.item ++ globItems others := by
  have hnot := start_not_mem_globItems (literals :: others)
  exact not_mem_of_not_mem_cons hnot

theorem matchFrom_globItems {others : List (List Literal)} {atStart : Bool} (htext : '\n' ∉ text) :
    matchFrom (globItems others) atStart text ↔ Spread (others.map IsWord) text := by
  induction others generalizing text atStart with
  | nil => exact matchFrom_finish htext
  | cons literals others ih =>
    rw [globItems, matchFrom_dots htext (start_not_mem_literals literals others)]
    constructor
    · rintro ⟨skipped, left, rfl, hmatch⟩
      obtain ⟨word, rest, rfl, hword, hrest⟩ := matchFrom_literals.mp hmatch
      simp only [mem_append, not_or] at htext
      exact ⟨skipped, word, rest, rfl, hword, (ih htext.2.2).mp hrest⟩
    · rintro ⟨skipped, word, rest, rfl, hword, hrest⟩
      simp only [mem_append, not_or] at htext
      exact ⟨skipped, _, rfl, matchFrom_literals.mpr
        ⟨word, rest, rfl, hword, (ih htext.2.2).mpr hrest⟩⟩

def IsSegmentWord (segment : List Regex.Token) : List Char → Prop :=
  IsWord (readSegment segment).1

theorem matchFrom_first {literals : List Literal} {others : List (List Literal)}
    (htext : '\n' ∉ text) :
    matchFrom (.start :: (literals.map Literal.item ++ globItems others)) true text ↔
      Anchored (IsWord literals) (others.map IsWord) text := by
  rw [matchFrom, Bool.true_and, matchFrom_literals]
  constructor
  · rintro ⟨word, rest, rfl, hword, hrest⟩
    simp only [mem_append, not_or] at htext
    exact ⟨word, rest, rfl, hword, (matchFrom_globItems htext.2).mp hrest⟩
  · rintro ⟨word, rest, rfl, hword, hrest⟩
    simp only [mem_append, not_or] at htext
    exact ⟨word, rest, rfl, hword, (matchFrom_globItems htext.2).mpr hrest⟩

theorem hasGlobSemantics_iff :
    HasGlobSemantics value ↔
      (∀ segment ∈ segmentsOf value, (readSegment segment).2 = []) ∧
      ∀ text, '\n' ∉ text →
        (Anchored (IsSegmentWord (segments (tokens value)).1)
            ((segments (tokens value)).2.map IsSegmentWord) text ↔
          Anchored (· = segmentText (segments (tokens value)).1)
            ((segments (tokens value)).2.map fun segment ↦ (· = segmentText segment)) text) := by
  have hmatch : ∀ list, parse (translateWildcard value) = some list → ∀ text, '\n' ∉ text →
      (matchFrom list true text = true ↔ Anchored (IsSegmentWord (segments (tokens value)).1)
        ((segments (tokens value)).2.map IsSegmentWord) text) := by
    intro list hlist text htext
    rw [(parse_eq_some_iff.mp hlist).2, matchFrom_first htext, map_map]
    exact Iff.rfl
  constructor
  · intro hglob
    obtain ⟨answer, hanswer, -⟩ := hglob [] not_mem_nil
    obtain ⟨list, hlist, -⟩ := Option.map_eq_some_iff.mp hanswer
    refine ⟨(parse_eq_some_iff.mp hlist).1, fun text htext ↦ ?_⟩
    obtain ⟨answer, hanswer, hinstance⟩ := hglob text htext
    rw [reMatch, hlist, Option.map_some, Option.some.injEq] at hanswer
    rw [← hmatch list hlist text htext, hanswer, hinstance, isInstance_iff]
  · rintro ⟨hread, hsame⟩ text htext
    have hlist := parse_eq_some_iff.mpr ⟨hread, rfl⟩
    refine ⟨_, by rw [reMatch, hlist]; rfl, ?_⟩
    rw [hmatch _ hlist text htext, hsame text htext, isInstance_iff]

theorem noRepetition_of_flatMap_eq {parts : List (List Regex.Token)}
    (hread : ∀ segment ∈ parts, (readSegment segment).2 = []) {debt : List Char}
    (h : debt ++ parts.flatMap segmentText =
      parts.flatMap fun segment ↦ leastWord (readSegment segment).1) :
    debt = [] ∧ ∀ segment ∈ parts, ∀ suffix ∈ (segment.map unescaped).tails,
      readBraces suffix = none := by
  induction parts generalizing debt with
  | nil => exact ⟨(append_eq_nil_iff.mp h).1, by simp⟩
  | cons segment parts ih =>
    rw [forall_mem_cons] at hread
    have hwrite : segmentText segment = segment.flatMap fun piece ↦ [pieceChar piece] :=
      map_eq_flatMap
    rw [flatMap_cons, flatMap_cons, hwrite] at h
    obtain ⟨left, hleft, hplain⟩ := exists_debt (fun piece ↦ mem_singleton_self _)
      (segment.map unescaped) hread.1 debt _ _ segment rfl h
    obtain ⟨hnil, hothers⟩ := ih hread.2 hleft
    obtain ⟨hdebt, -, hnone⟩ := hplain hnil
    refine ⟨hdebt, forall_mem_cons.mpr ⟨fun suffix hsuffix ↦ ?_, hothers⟩⟩
    exact hnone suffix ((mem_tails _ _).mp hsuffix)

theorem readSegment_of_noRepetition
    (h : ∀ suffix ∈ (segment.map unescaped).tails, readBraces suffix = none) :
    (readSegment segment).2 = [] ∧
      ∀ word, IsSegmentWord segment word ↔ word = segmentText segment := by
  have hread : readSegment segment = ((segment.map unescaped).map single, []) :=
    many_readLiteral_of_noRepetition fun suffix hsuffix ↦ h suffix ((mem_tails _ _).mpr hsuffix)
  refine ⟨by rw [hread], fun word ↦ ?_⟩
  rw [IsSegmentWord, hread, isWord_single, map_map]
  have htext : (segment.map (pieceChar ∘ unescaped)) = segmentText segment :=
    map_congr_left fun piece _ ↦ pieceChar_unescaped piece
  rw [htext]

theorem flatMap_segmentText_eq {first : List Regex.Token} {others : List (List Regex.Token)}
    (hsame : ∀ text, '\n' ∉ text →
      (Anchored (IsSegmentWord first) (others.map IsSegmentWord) text ↔
        Anchored (· = segmentText first)
          (others.map fun segment ↦ (· = segmentText segment)) text))
    (hnewline : '\n' ∉ (first :: others).flatMap fun segment ↦ leastWord (readSegment segment).1) :
    (first :: others).flatMap segmentText =
      (first :: others).flatMap fun segment ↦ leastWord (readSegment segment).1 := by
  have hleast : ∀ segment, IsSegmentWord segment (leastWord (readSegment segment).1) :=
    fun segment ↦ isWord_leastWord (least_le_of_mem_many _)
  have hinstance := ((hsame _ hnewline).mp ⟨_, _, rfl, hleast first,
    spread_flatMap others fun segment _ ↦ hleast segment⟩).spread
  have hsublist := flatMap_sublist (first :: others) hinstance
  have hmatch := ((hsame _ fun hmem ↦ hnewline (hsublist.subset hmem)).mpr ⟨_, _, rfl, rfl,
    spread_flatMap others fun segment _ ↦ rfl⟩).spread
  exact hsublist.eq_of_length_le (length_flatMap_le (first :: others)
    (fun segment _ word hword ↦ length_leastWord_le hword) hmatch)

/-- A value has glob semantics if and only if no brace begins a repetition between its wildcards, or
it can be read and a newline has to be there. -/
theorem globSemantics_iff (value : List Char) :
    HasGlobSemantics value ↔ NoBraces value ∨ HasNewline value := by
  rw [hasGlobSemantics_iff]
  constructor
  · rintro ⟨hread, hsame⟩
    by_cases hnewline : '\n' ∈ (segmentsOf value).flatMap fun segment ↦
        leastWord (readSegment segment).1
    · right
      obtain ⟨segment, hsegment, hmem⟩ := mem_flatMap.mp hnewline
      obtain ⟨literal, hliteral, hchar⟩ := mem_flatMap.mp hmem
      obtain ⟨hleast, heq⟩ := mem_replicate.mp hchar
      exact ⟨hread, segment, hsegment, literal, hliteral, heq.symm, Nat.pos_of_ne_zero hleast⟩
    · left
      exact (@noRepetition_of_flatMap_eq _ hread [] (flatMap_segmentText_eq hsame hnewline)).2
  · rintro (hnone | ⟨hread, segment, hsegment, literal, hliteral, hchar, hleast⟩)
    · have hwords := fun segment hsegment ↦ readSegment_of_noRepetition (hnone segment hsegment)
      refine ⟨fun segment hsegment ↦ (hwords segment hsegment).1, fun text _ ↦ ?_⟩
      have hfirst := (hwords _ mem_cons_self).2
      refine exists_congr fun word ↦ exists_congr fun rest ↦ and_congr_right fun _ ↦ ?_
      rw [hfirst word, spread_congr _ fun segment hsegment ↦
        (hwords segment (mem_cons_of_mem _ hsegment)).2]
    · refine ⟨hread, fun text htext ↦ iff_of_false ?_ ?_⟩
      · intro hmatch
        refine htext (mem_of_spread hsegment (fun word hword ↦ ?_) hmatch.spread)
        refine mem_of_mem_leastWord hword (mem_flatMap.mpr ⟨literal, hliteral, ?_⟩)
        exact mem_replicate.mpr ⟨by omega, hchar.symm⟩
      · intro hinstance
        refine htext (@mem_of_spread _ _ (fun segment ↦ (· = segmentText segment)) _ _ _ hsegment
          (fun word hword ↦ ?_) hinstance.spread)
        obtain ⟨piece, hpiece, heq⟩ := exists_of_mem_many _ literal hliteral
        obtain ⟨other, hother, rfl⟩ := mem_map.mp hpiece
        rw [hword, ← hchar, heq, pieceChar_unescaped]
        exact mem_map_of_mem hother

/-- The expression of `a{2}*` matches `aa`, which does not begin like the value. -/
theorem twice_not_globSemantics :
    isWildcard ['a', '\x7b', '2', '\x7d', '*'] = true ∧
      reMatch (translateWildcard ['a', '\x7b', '2', '\x7d', '*']) ['a', 'a'] = some true ∧
      ¬ IsInstance (tokens ['a', '\x7b', '2', '\x7d', '*']) ['a', 'a'] ∧
      ¬ HasGlobSemantics ['a', '\x7b', '2', '\x7d', '*'] := by
  have hmatch : reMatch (translateWildcard ['a', '\x7b', '2', '\x7d', '*']) ['a', 'a'] =
      some true := by
    decide
  have hinstance : ¬ IsInstance (tokens ['a', '\x7b', '2', '\x7d', '*']) ['a', 'a'] := by
    simp [tokens, IsInstance]
  refine ⟨by decide, hmatch, hinstance, fun hglob ↦ ?_⟩
  obtain ⟨answer, hanswer, hiff⟩ := hglob ['a', 'a'] (by decide)
  rw [hmatch] at hanswer
  exact hinstance (hiff.mp (Option.some_inj.mp hanswer).symm)

end Sentry.EventSearch
