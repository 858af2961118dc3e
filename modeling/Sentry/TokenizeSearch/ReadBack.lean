import Sentry.TokenizeSearch.WordTokens

/-!
# Reading printed tokens

Which tokens are read back from what `formatString` prints for them, and what is read where a
printed token begins a query: either the token itself, and what follows it apart
(`words_append_of_closed`), or another one.
-/

namespace Sentry.TokenizeSearch

open Library OpenWord List

theorem needsQuotes_eq_false_iff (value : Str) : needsQuotes value = false ↔
    ∀ char ∈ value, isSpace char = false ∧ char ≠ openParen ∧ char ≠ closeParen ∧
      char ≠ backslash ∧ char ≠ doubleQuote := by
  simp [needsQuotes, and_assoc]

theorem isWord_inQuotes (value : Str) : IsWord (inQuotes value) := by
  have hquote : isSpace doubleQuote = false := by decide
  refine ⟨cons_ne_nil _ _, trim_eq_self ?_ ?_, ?_⟩
  · intro char hchar
    rw [← Option.some.inj hchar, hquote]
  · intro char hchar
    unfold inQuotes at hchar
    rw [getLast?_concat] at hchar
    rw [← Option.some.inj hchar, hquote]
  · have hopen : (start.push doubleQuote).quote = some doubleQuote := rfl
    unfold inQuotes
    rw [cons_append, unbroken, hquote, Bool.false_and, Bool.not_false, Bool.true_and,
      unbroken_append, (quote_pushAll_escapeDoubleQuotes hopen value).2, unbroken, hquote]
    rfl

variable {value : Str}

theorem isWord_of_needsQuotes_eq_false (hne : value ≠ [])
    (h : needsQuotes value = false) : IsWord value := by
  have hspace (char : CodeUnit) (hchar : char ∈ value) : isSpace char = false :=
    ((needsQuotes_eq_false_iff value).mp h char hchar).1
  exact ⟨hne, trim_eq_self (fun char hchar ↦ hspace char (mem_of_head? hchar))
    fun char hchar ↦ hspace char (mem_of_getLast? hchar), unbroken_of_forall start hspace⟩

theorem isWord_quoteIfNeeded (hne : value ≠ []) : IsWord (quoteIfNeeded value) := by
  unfold quoteIfNeeded
  split_ifs with h
  · exact isWord_inQuotes value
  · exact isWord_of_needsQuotes_eq_false hne (Bool.eq_false_iff.mpr h)

theorem bare_escapeDoubleQuotes (h : Bare value) : Bare (escapeDoubleQuotes value) := by
  refine ⟨escapeDoubleQuotes_ne_nil h.ne_nil, fun char hchar ↦ ?_, fun char hchar ↦ ?_⟩
  · have hhead : value.head? ≠ some doubleQuote := fun hquote ↦ by cases h.head _ hquote
    rw [head?_escapeDoubleQuotes hhead] at hchar
    exact h.head char hchar
  · rw [getLast?_escapeDoubleQuotes] at hchar
    exact h.last char hchar

theorem rdropWhile_rdropWhile_closeParen (text : Str) :
    (text.rdropWhile (· = closeParen)).rdropWhile
        (fun char ↦ char = doubleQuote || char = closeParen) =
      text.rdropWhile fun char ↦ char = doubleQuote || char = closeParen := by
  conv_rhs => rw [← rdropWhile_append_rtakeWhile (p := (· = closeParen)) (l := text)]
  refine (rdropWhile_append_of_all _ fun char hchar ↦ ?_).symm
  rw [eq_of_mem_rtakeWhile hchar]
  rfl

theorem eq_of_head?_wordTokens (before : Str) {text : Str} (after : Str)
    (hbefore : ∀ char ∈ before, char = doubleQuote) (htext : Bare text)
    (h : (wordTokens (before ++ text ++ after)).head? = some ⟨.freeText, none, value⟩) :
    isBooleanOp (before ++ text ++ after) = false ∧
      tokenState 0 (before ++ text ++ after) ≠ .filter ∧
      value = text ++ after.rdropWhile fun char ↦ char = doubleQuote || char = closeParen := by
  have hhead : (before ++ text ++ after).head? ≠ some openParen := by
    intro hhead
    cases before with
    | nil =>
      rw [nil_append, head?_append_of_ne_nil _ htext.ne_nil] at hhead
      cases htext.head _ hhead
    | cons char before =>
      rw [hbefore char mem_cons_self] at hhead
      cases hhead
  have hlast : (before ++ text).getLast? ≠ some closeParen := fun hlast ↦ by
    rw [getLast?_append_of_ne_nil _ htext.ne_nil] at hlast
    cases htext.last _ hlast
  obtain ⟨hop, ⟨-, hfilter⟩ | ⟨hstate, hfree⟩⟩ := exists_of_head?_wordTokens hhead h
    fun htype ↦ by cases htype
  · cases hfilter
  · obtain ⟨rest, hrest, hcases⟩ := withoutTrailingParens_append hlast after
    have hvalue : value = formatQuery (before ++ text ++ rest) := by
      rw [← hrest]
      exact congrArg Token.value hfree
    rw [formatQuery_append (fun char hchar ↦ by rw [hbefore char hchar]; rfl) htext] at hvalue
    refine ⟨hop, hstate, ?_⟩
    rcases hcases with heq | heq
    · rw [hvalue, heq]
    · rw [hvalue, heq, rdropWhile_rdropWhile_closeParen]

def FreeTextReadable (value : Str) : Prop :=
  value ≠ [] ∧
    if needsQuotes value then escapeDoubleQuotes value = value
    else isBooleanOp value = false ∧ tokenState 0 value ≠ .filter

theorem wordTokens_eq_freeText {word : Str} (hop : isBooleanOp word = false)
    (hhead : word.head? ≠ some openParen) (hlast : word.getLast? ≠ some closeParen)
    (hstate : tokenState 0 word ≠ .filter) (hne : word ≠ []) :
    wordTokens word = [⟨.freeText, none, formatQuery word⟩] := by
  have hself := withoutTrailingParens_eq_self hlast
  have hparens : trailingParens word = [] := by
    have happend := withoutTrailingParens_append_trailingParens word
    rw [hself] at happend
    exact append_right_eq_self.mp happend
  rw [wordTokens_of_head?_ne hhead, hop, if_neg Bool.false_ne_true, textTokens_eq, if_neg hstate,
    hself, if_neg hne, hparens]
  rfl

theorem wordTokens_inQuotes (h : Bare value) :
    wordTokens (inQuotes value) = [⟨.freeText, none, escapeDoubleQuotes value⟩] := by
  have hop : isBooleanOp (inQuotes value) = false := by
    simp [isBooleanOp, inQuotes, toUpperCase, doubleQuote]
  have hlast : (inQuotes value).getLast? ≠ some closeParen := by
    unfold inQuotes
    rw [getLast?_concat]
    decide
  have hformat : formatQuery (inQuotes value) = escapeDoubleQuotes value := by
    have happend : formatQuery ([doubleQuote] ++ escapeDoubleQuotes value ++ [doubleQuote]) = _ :=
      formatQuery_append (by simp) (bare_escapeDoubleQuotes h) [doubleQuote]
    exact happend.trans (append_nil _)
  rw [wordTokens_eq_freeText hop (fun hhead ↦ by cases hhead) hlast
    (fun hstate ↦ by cases hstate) (cons_ne_nil _ _), hformat]

theorem wordTokens_quoteIfNeeded (hbare : Bare value) (h : FreeTextReadable value) :
    wordTokens (quoteIfNeeded value) = [⟨.freeText, none, value⟩] := by
  obtain ⟨hne, hread⟩ := h
  unfold quoteIfNeeded
  split_ifs at hread ⊢
  · rw [wordTokens_inQuotes hbare, hread]
  · have hformat : formatQuery value = value := by
      have happend : formatQuery ([] ++ value ++ []) = _ := formatQuery_append (by simp) hbare []
      rwa [nil_append, append_nil, rdropWhile_nil, append_nil] at happend
    rw [wordTokens_eq_freeText hread.1 (fun hhead ↦ by cases hbare.head _ hhead)
      (fun hlast ↦ by cases hbare.last _ hlast) hread.2 hne, hformat]

theorem words_append_of_closed {text : Str} (h : IsWord text) {rest : Str}
    (hrest : rest = [] ∨ ∃ more, rest = space :: more)
    (hclosed : (start.pushAll text).closed = true ∨ trim rest = []) :
    start.words (text ++ rest) = text :: start.words rest := by
  rcases hclosed with hclosed | hblank
  · rcases hrest with hnil | ⟨more, hmore⟩
    · rw [hnil, append_nil, words_of_isWord h]
      rfl
    · rw [hmore, words_append_space h hclosed, words_space_cons (by decide)]
  · have hall := (trim_eq_nil_iff rest).mp hblank
    have hnil : start.words rest = [] := by
      rw [← words_trim, hblank]
      rfl
    rw [words_append_blank hall, words_of_isWord h, hnil]

theorem exists_words_append_of_not_closed {text : Str} (h : IsWord text) {rest : Str}
    (hrest : rest = [] ∨ ∃ more, rest = space :: more)
    (hclosed : ¬ ((start.pushAll text).closed = true ∨ trim rest = [])) :
    ∃ more others, start.words (text ++ rest) = (text ++ space :: more) :: others := by
  rw [not_or] at hclosed
  obtain ⟨more, hmore⟩ := hrest.resolve_left fun hnil ↦ hclosed.2 (by rw [hnil]; rfl)
  have htrim : trim more ≠ [] := by
    have hblank := hclosed.2
    rw [hmore, ← singleton_append, trim_blank_append (by decide)] at hblank
    exact hblank
  rw [hmore]
  exact exists_words_of_not_closed h hclosed.1 htrim

def readTokens (text : Str) : List Token := parseParts (start.words text)

theorem parse_eq (query : Str) : parse query = readTokens query := by
  rw [parse, splitSearchIntoTokens_eq]
  rfl

theorem head?_readTokens {text word : Str} {others : List Str} (hword : word ≠ [])
    (h : start.words text = word :: others) {token : Token}
    (hhead : (readTokens text).head? = some token) : (wordTokens word).head? = some token := by
  rw [readTokens, h, parseParts, flatMap_cons,
    head?_append_of_ne_nil _ (wordTokens_ne_nil hword)] at hhead
  exact hhead

theorem ne_append_rdropWhile {value text before more : Str} (hlength : value.length ≤ text.length) :
    value ≠ text ++ (before ++ space :: more).rdropWhile
      fun char ↦ char = doubleQuote || char = closeParen := by
  intro heq
  have hnil : (before ++ space :: more).rdropWhile
      (fun char ↦ char = doubleQuote || char = closeParen) = [] := by
    have hlengths := congrArg List.length heq
    rw [length_append] at hlengths
    exact length_eq_zero_iff.mp (by omega)
  have hspace := rdropWhile_eq_nil_iff.mp hnil space (by simp)
  revert hspace
  decide

theorem freeText_of_head?_readTokens (hbare : Bare value) {rest : Str}
    (hrest : rest = [] ∨ ∃ more, rest = space :: more)
    (h : (readTokens (quoteIfNeeded value ++ rest)).head? = some ⟨.freeText, none, value⟩) :
    FreeTextReadable value ∧
      ((start.pushAll (quoteIfNeeded value)).closed = true ∨ trim rest = []) := by
  have hword := isWord_quoteIfNeeded hbare.ne_nil
  by_cases hclosed : (start.pushAll (quoteIfNeeded value)).closed = true ∨ trim rest = []
  · refine ⟨⟨hbare.ne_nil, ?_⟩, hclosed⟩
    have hhead := head?_readTokens hword.ne_nil (words_append_of_closed hword hrest hclosed) h
    unfold quoteIfNeeded at hhead
    split_ifs at hhead ⊢
    · rw [wordTokens_inQuotes hbare] at hhead
      exact congrArg Token.value (Option.some.inj hhead)
    · have hread := eq_of_head?_wordTokens [] [] (by simp) hbare
        (by rwa [nil_append, append_nil])
      rw [nil_append, append_nil] at hread
      exact ⟨hread.1, hread.2.1⟩
  · obtain ⟨after, others, hwords⟩ := exists_words_append_of_not_closed hword hrest hclosed
    have hhead := head?_readTokens (by simp) hwords h
    unfold quoteIfNeeded at hhead
    split_ifs at hhead
    · have hread := (eq_of_head?_wordTokens [doubleQuote]
        ([doubleQuote] ++ space :: after) (by simp) (bare_escapeDoubleQuotes hbare)
        (by simpa [inQuotes] using hhead)).2.2
      exact absurd hread (ne_append_rdropWhile (length_le_length_escapeDoubleQuotes value))
    · have hread := (eq_of_head?_wordTokens [] ([] ++ space :: after) (by simp) hbare
        hhead).2.2
      exact absurd hread (ne_append_rdropWhile (Nat.le_refl _))

def FilterReadable (key value : Str) : Prop :=
  removeSurroundingQuotes key = key ∧
    (if needsQuotes value then escapeDoubleQuotes value = value ∧ value.getLast? ≠ some backslash
      else value.head? ≠ some colon) ∧
    start.unbroken (key ++ colon :: formatValue value) = true

variable {char : CodeUnit}

theorem getLast?_formatValue
    (h : char ∈ (formatValue value).getLast?) : isSpace char = false ∧ char ≠ closeParen := by
  have hquote : isSpace doubleQuote = false ∧ doubleQuote ≠ closeParen := by decide
  unfold formatValue quoteIfNeeded inQuotes at h
  split_ifs at h with hnil hquotes
  · rwa [← Option.some.inj h]
  · rw [getLast?_concat] at h
    rwa [← Option.some.inj h]
  · have hvalue := (needsQuotes_eq_false_iff value).mp (Bool.eq_false_iff.mpr hquotes) char
      (mem_of_getLast? h)
    exact ⟨hvalue.1, hvalue.2.2.1⟩

theorem formatValue_ne_nil (value : Str) : formatValue value ≠ [] := by
  unfold formatValue
  split_ifs with hnil
  · exact cons_ne_nil _ _
  · exact (isWord_quoteIfNeeded hnil).ne_nil

theorem head?_formatValue (h : value.head? ≠ some colon ∨ needsQuotes value = true) :
    ¬ ((formatValue value).head? = some colon ∨ (formatValue value).head? = some space) := by
  unfold formatValue quoteIfNeeded
  split_ifs with hnil hquotes
  · decide
  · show ¬ (some doubleQuote = some colon ∨ some doubleQuote = some space)
    decide
  · rintro (hcolon | hspace)
    · exact h.elim (fun hne ↦ hne hcolon) hquotes
    · have hvalue := (needsQuotes_eq_false_iff value).mp (Bool.eq_false_iff.mpr hquotes) space
        (mem_of_head? hspace)
      exact absurd hvalue.1 (by decide)

theorem removeSurroundingQuotes_formatValue
    (h : needsQuotes value = true → escapeDoubleQuotes value = value ∧
      value.getLast? ≠ some backslash) : removeSurroundingQuotes (formatValue value) = value := by
  unfold formatValue quoteIfNeeded
  split_ifs with hnil hquotes
  · rw [hnil]
    decide
  · obtain ⟨hescape, hlast⟩ := h hquotes
    have hhead := head?_escapeDoubleQuotes_ne value
    have hquote (h : (escapeDoubleQuotes value).getLast? = some doubleQuote) :
        (escapeDoubleQuotes value).dropLast.getLast? = some backslash :=
      getLast?_dropLast_escapeDoubleQuotes h
    rw [hescape] at hhead hquote
    unfold inQuotes
    rw [hescape]
    exact removeSurroundingQuotes_quoted hnil hhead hlast hquote
  · refine removeSurroundingQuotes_eq_self fun hmem ↦ ?_
    have hvalue := (needsQuotes_eq_false_iff value).mp (Bool.eq_false_iff.mpr hquotes) _ hmem
    exact hvalue.2.2.2.2 rfl

theorem escapeDoubleQuotes_eq_of_removeSurroundingQuotes {value after : Str} (hne : value ≠ [])
    (h : removeSurroundingQuotes (doubleQuote :: (escapeDoubleQuotes value ++ after)) = value) :
    escapeDoubleQuotes value = value := by
  have hescape := escapeDoubleQuotes_ne_nil hne
  have hhead : (escapeDoubleQuotes value ++ after).head? ≠ some doubleQuote := by
    rw [head?_append_of_ne_nil _ hescape]
    exact head?_escapeDoubleQuotes_ne value
  have hbegins := removeSurroundingQuotes_cons_prefix (by simp [hescape]) hhead
  rw [h] at hbegins
  exact escapeDoubleQuotes_eq_of_prefix (prefix_of_prefix_length_le hbegins
    (prefix_append _ _) (length_le_length_escapeDoubleQuotes value))

theorem exists_of_inQuotes_eq_append {value before after : Str}
    (h : inQuotes value = before ++ char :: after) (hchar : isSpace char = true) :
    ∃ first last, before = doubleQuote :: first ∧
      escapeDoubleQuotes value = first ++ char :: last := by
  have hne : doubleQuote ≠ char := fun heq ↦ by
    rw [← heq] at hchar
    cases hchar
  unfold inQuotes at h
  cases before with
  | nil => exact absurd (List.cons.inj h).1 hne
  | cons other first =>
    obtain ⟨hother, hrest⟩ := List.cons.inj h
    rw [← hother]
    rcases append_eq_append_iff.mp hrest with ⟨more, -, hmore⟩ | ⟨more, hmore, hlast⟩
    · have hsingle : char ∈ [doubleQuote] := by rw [hmore]; simp
      exact absurd (mem_singleton.mp hsingle).symm hne
    · cases more with
      | nil => exact absurd (List.cons.inj hlast).1.symm hne
      | cons next more =>
        rw [(List.cons.inj hlast).1]
        exact ⟨first, more, rfl, hmore⟩

theorem removeSurroundingQuotes_ne_of_escaped {value first last part : Str}
    (hescape : escapeDoubleQuotes value = first ++ char :: last) (hchar : isSpace char = true)
    (hpart : part <+: first) : removeSurroundingQuotes (doubleQuote :: part) ≠ value := by
  intro hread
  by_cases hempty : part = []
  · have hmem : char ∈ escapeDoubleQuotes value := by rw [hescape]; simp
    rw [← hread, hempty] at hmem
    rcases mem_pair.mp hmem with heq | heq <;> rw [heq] at hchar <;> cases hchar
  · have hpartEscape : part <+: escapeDoubleQuotes value := by
      rw [hescape]
      exact hpart.trans (prefix_append _ _)
    have hhead : part.head? ≠ some doubleQuote := by
      obtain ⟨tail, htail⟩ := hpartEscape
      have hne := head?_escapeDoubleQuotes_ne value
      rwa [← htail, head?_append_of_ne_nil _ hempty] at hne
    have hbegins := removeSurroundingQuotes_cons_prefix hempty hhead
    rw [hread] at hbegins
    have hsame := escapeDoubleQuotes_eq_of_prefix (hbegins.trans hpartEscape)
    have hlength := (hbegins.trans hpart).length_le
    have hlonger := congrArg List.length (hsame.symm.trans hescape)
    rw [length_append, length_cons] at hlonger
    omega

theorem removeSurroundingQuotes_ne_of_isSpace {value before after part : Str}
    (hvalue : formatValue value = before ++ char :: after) (hchar : isSpace char = true)
    (hpart : part <+: before) : removeSurroundingQuotes part ≠ value := by
  have hmem : char ∈ formatValue value := by rw [hvalue]; simp
  unfold formatValue quoteIfNeeded at hvalue hmem
  split_ifs at hvalue hmem with hnil hquotes
  · rcases mem_pair.mp hmem with heq | heq <;> rw [heq] at hchar <;> cases hchar
  · obtain ⟨first, last, hbefore, hescape⟩ := exists_of_inQuotes_eq_append hvalue hchar
    rw [hbefore] at hpart
    cases part with
    | nil => exact fun hread ↦ hnil hread.symm
    | cons other part =>
      rw [cons_prefix_cons] at hpart
      rw [hpart.1]
      exact removeSurroundingQuotes_ne_of_escaped hescape hchar hpart.2
  · have hspace := ((needsQuotes_eq_false_iff value).mp (Bool.eq_false_iff.mpr hquotes) char
      hmem).1
    rw [hspace] at hchar
    cases hchar

theorem formatValue_read (hread : removeSurroundingQuotes (formatValue value) = value)
    (hcolon : (formatValue value).head? ≠ some colon) :
    if needsQuotes value then escapeDoubleQuotes value = value ∧ value.getLast? ≠ some backslash
      else value.head? ≠ some colon := by
  unfold formatValue quoteIfNeeded at hread hcolon
  split_ifs at hread hcolon ⊢ with hquotes hnil hnil
  · rw [hnil] at hquotes
    cases hquotes
  · have hescape := escapeDoubleQuotes_eq_of_removeSurroundingQuotes hnil hread
    refine ⟨hescape, fun hlast ↦ ?_⟩
    have hhead := head?_escapeDoubleQuotes_ne value
    unfold inQuotes at hread
    rw [hescape] at hhead hread
    rw [removeSurroundingQuotes_escaped hnil hhead hlast] at hread
    exact cons_ne_nil _ _ (append_right_eq_self.mp hread)
  · rw [hnil]
    exact fun heq ↦ by cases heq
  · exact hcolon

theorem removeSurroundingQuotes_ne_of_space (value tail : Str) :
    removeSurroundingQuotes (formatValue value ++ space :: tail) ≠ value := by
  intro hread
  have hcount := countP_removeSurroundingQuotes (formatValue value ++ space :: tail)
  rw [hread, countP_append, countP_cons_of_pos (by decide)] at hcount
  have hle : value.countP (· ≠ doubleQuote) ≤ (formatValue value).countP (· ≠ doubleQuote) := by
    unfold formatValue quoteIfNeeded at hread ⊢
    split_ifs at hread ⊢ with hnil hquotes
    · rw [hnil]
      exact Nat.zero_le _
    · unfold inQuotes at hread ⊢
      rw [cons_append, cons_append, append_assoc] at hread
      rw [escapeDoubleQuotes_eq_of_removeSurroundingQuotes hnil hread]
      exact (sublist_append_of_sublist_left (sublist_cons_self _ _)).countP_le
    · exact Nat.le_refl _
  omega

theorem isBooleanOp_of_colon_mem {word : Str} (h : colon ∈ word) : isBooleanOp word = false := by
  have hcolon : colon ∈ toUpperCase word := mem_map.mpr ⟨colon, h, by decide⟩
  rw [Bool.eq_false_iff]
  intro hop
  have hor : toUpperCase word = [79, 82] ∨ toUpperCase word = [65, 78, 68] := by
    simpa [isBooleanOp] using hop
  rcases hor with heq | heq
  · rw [heq] at hcolon
    revert hcolon
    decide
  · rw [heq] at hcolon
    revert hcolon
    decide

theorem formatQuery_ne_nil {text : Str} (h : colon ∈ text) : formatQuery text ≠ [] := by
  intro hnil
  rw [← takeWhile_append_dropWhile
    (p := fun char ↦ char = doubleQuote || char = openParen) (l := text), mem_append] at h
  rcases h with htake | hdrop
  · have hcolon := mem_takeWhile_imp htake
    revert hcolon
    decide
  · have hcolon := rdropWhile_eq_nil_iff.mp hnil colon hdrop
    revert hcolon
    decide

section Filter

variable {key : Str} (hkey : IsKey key)
include hkey

theorem head?_key_append (rest : Str) : ∀ char ∈ (key ++ rest).head?,
    char ≠ doubleQuote ∧ char ≠ openParen ∧ isSpace char = false := by
  rw [head?_append_of_ne_nil _ hkey.ne_nil]
  exact hkey.head

theorem isWord_filter {value : Str}
    (h : start.unbroken (key ++ colon :: formatValue value) = true) :
    IsWord (key ++ colon :: formatValue value) := by
  refine ⟨by simp, trim_eq_self (fun char hchar ↦ (head?_key_append hkey _ char hchar).2.2)
    fun char hchar ↦ ?_, h⟩
  rw [getLast?_append_of_ne_nil _ (cons_ne_nil _ _),
    getLast?_cons_of_ne_nil (formatValue_ne_nil value)] at hchar
  exact (getLast?_formatValue hchar).1

theorem isWord_key : IsWord (key ++ [colon]) := by
  refine ⟨by simp, trim_eq_self (fun char hchar ↦ (head?_key_append hkey _ char hchar).2.2)
    fun char hchar ↦ ?_, ?_⟩
  · rw [getLast?_concat] at hchar
    rw [← Option.some.inj hchar]
    decide
  · rw [unbroken_append, hkey.unbroken]
    rfl

theorem filter_of_head?_wordTokens {after : Str} {value : Str}
    (h : (wordTokens (key ++ colon :: after)).head? = some ⟨.filter, some key, value⟩) :
    removeSurroundingQuotes key = key ∧ after.head? ≠ some colon ∧
      ∃ rest, removeSurroundingQuotes rest = value ∧
        (rest = after ∨ rest = after.rdropWhile (· = closeParen)) := by
  have hhead : (key ++ colon :: after).head? ≠ some openParen := fun hparen ↦
    (head?_key_append hkey _ _ hparen).2.1 rfl
  have hlast : (key ++ [colon]).getLast? ≠ some closeParen := by
    rw [getLast?_concat]
    decide
  obtain ⟨-, ⟨hstate, hfilter⟩ | ⟨-, hfree⟩⟩ := exists_of_head?_wordTokens hhead h
    fun htype ↦ by cases htype
  · rw [tokenState_append 0 hkey.colon_notMem fun _ ↦
      ⟨hkey.ne_nil, fun hquote ↦ (hkey.head _ hquote).1 rfl⟩] at hstate
    split_ifs at hstate with hnext
    obtain ⟨rest, hrest, hcases⟩ := withoutTrailingParens_append hlast after
    rw [append_cons, hrest, append_assoc, addStringFilter, singleton_append,
      parseFilter_append hkey.colon_notMem] at hfilter
    refine ⟨?_, fun heq ↦ hnext (Or.inl heq), rest, (congrArg Token.value hfilter).symm, hcases⟩
    exact (Option.some.inj (congrArg Token.key hfilter)).symm
  · cases hfree

theorem head?_wordTokens_ne_empty (after : Str) :
    (wordTokens (key ++ [colon] ++ after)).head? ≠ some ⟨.freeText, none, []⟩ := by
  intro h
  have hhead : (key ++ [colon] ++ after).head? ≠ some openParen := fun hparen ↦ by
    rw [append_assoc] at hparen
    exact (head?_key_append hkey _ _ hparen).2.1 rfl
  have hlast : (key ++ [colon]).getLast? ≠ some closeParen := by
    rw [getLast?_concat]
    decide
  obtain ⟨-, ⟨-, hfilter⟩ | ⟨-, hfree⟩⟩ := exists_of_head?_wordTokens hhead h
    fun htype ↦ by cases htype
  · cases hfilter
  · obtain ⟨rest, hrest, -⟩ := withoutTrailingParens_append hlast after
    have hvalue : formatQuery (key ++ [colon] ++ rest) = [] := by
      rw [← hrest]
      exact (congrArg Token.value hfree).symm
    exact formatQuery_ne_nil (by simp) hvalue

theorem wordTokens_filter {value : Str} (h : FilterReadable key value) :
    wordTokens (key ++ colon :: formatValue value) = [⟨.filter, some key, value⟩] := by
  obtain ⟨hself, hvalue, -⟩ := h
  have hhead : (key ++ colon :: formatValue value).head? ≠ some openParen := fun hparen ↦
    (head?_key_append hkey _ _ hparen).2.1 rfl
  have hlast : (key ++ colon :: formatValue value).getLast? ≠ some closeParen := fun hparen ↦ by
    rw [getLast?_append_of_ne_nil _ (cons_ne_nil _ _),
      getLast?_cons_of_ne_nil (formatValue_ne_nil value)] at hparen
    exact (getLast?_formatValue hparen).2 rfl
  have hnext : ¬ ((formatValue value).head? = some colon ∨
      (formatValue value).head? = some space) := head?_formatValue (by
    by_cases hquotes : needsQuotes value = true
    · exact Or.inr hquotes
    · rw [if_neg hquotes] at hvalue
      exact Or.inl hvalue)
  have hread : removeSurroundingQuotes (formatValue value) = value :=
    removeSurroundingQuotes_formatValue fun hquotes ↦ by rwa [if_pos hquotes] at hvalue
  have hwhole := withoutTrailingParens_eq_self hlast
  have hparens : trailingParens (key ++ colon :: formatValue value) = [] := by
    have happend := withoutTrailingParens_append_trailingParens (key ++ colon :: formatValue value)
    rw [hwhole] at happend
    exact append_right_eq_self.mp happend
  rw [wordTokens_of_head?_ne hhead, isBooleanOp_of_colon_mem (by simp), if_neg Bool.false_ne_true,
    textTokens_eq, tokenState_append 0 hkey.colon_notMem fun _ ↦
      ⟨hkey.ne_nil, fun hquote ↦ (hkey.head _ hquote).1 rfl⟩, if_neg hnext, if_pos rfl, hwhole,
    hparens, addStringFilter, parseFilter_append hkey.colon_notMem, hself, hread]
  rfl

theorem unbroken_of_head?_readTokens {value rest : Str}
    (h : (readTokens (key ++ colon :: formatValue value ++ rest)).head? =
      some ⟨.filter, some key, value⟩) :
    removeSurroundingQuotes key = key ∧
      start.unbroken (key ++ colon :: formatValue value) = true := by
  obtain ⟨before, after, happend, hbefore, hwords, hafter⟩ :=
    exists_words_append (isWord_key hkey) (formatValue value ++ rest)
  have hhead := head?_readTokens (by simp) hwords (by simpa using h)
  rw [append_assoc, singleton_append] at hhead
  obtain ⟨hself, -, part, hpart, hcases⟩ := filter_of_head?_wordTokens hkey hhead
  have hbegins : part <+: before := by
    rcases hcases with heq | heq <;> rw [heq]
    · exact rdropWhile_prefix _ _
    · exact ( rdropWhile_prefix _ _).trans ( rdropWhile_prefix _ _)
  -- the word does not end in the value
  have hsplit : ∃ more, before = formatValue value ++ more := by
    rcases append_eq_append_iff.mp happend with ⟨more, hmore, -⟩ | ⟨missing, hmissing, hlate⟩
    · exact ⟨more, hmore⟩
    · cases missing with
      | nil => exact ⟨[], by rw [hmissing, append_nil, append_nil]⟩
      | cons char missing =>
        rw [hlate] at hafter
        rcases hafter with hnil | ⟨⟨other, hother, hspace⟩, -⟩
        · cases hnil
        · have hother : char = other := Option.some.inj hother
          rw [← hother] at hspace
          exact absurd hpart (removeSurroundingQuotes_ne_of_isSpace hmissing hspace hbegins)
  obtain ⟨more, hmore⟩ := hsplit
  rw [hmore, ← append_assoc, unbroken_append, Bool.and_eq_true, append_assoc] at hbefore
  exact ⟨hself, hbefore.1⟩

theorem filter_of_head?_readTokens {value rest : Str}
    (hrest : rest = [] ∨ ∃ more, rest = space :: more)
    (h : (readTokens (key ++ colon :: formatValue value ++ rest)).head? =
      some ⟨.filter, some key, value⟩) :
    FilterReadable key value ∧
      ((start.pushAll (key ++ colon :: formatValue value)).closed = true ∨ trim rest = []) := by
  obtain ⟨hself, hunbroken⟩ := unbroken_of_head?_readTokens hkey h
  have hword := isWord_filter hkey hunbroken
  by_cases hclosed :
      (start.pushAll (key ++ colon :: formatValue value)).closed = true ∨ trim rest = []
  · refine ⟨⟨hself, ?_, hunbroken⟩, hclosed⟩
    have hhead := head?_readTokens hword.ne_nil (words_append_of_closed hword hrest hclosed) h
    obtain ⟨-, hcolon, part, hpart, hcases⟩ := filter_of_head?_wordTokens hkey hhead
    have hpartEq : part = formatValue value := by
      rcases hcases with heq | heq
      · exact heq
      · rw [heq, rdropWhile_eq_self_iff]
        intro hne hparen
        exact (getLast?_formatValue (getLast?_eq_getLast_of_ne_nil hne)).2
          (of_decide_eq_true hparen)
    rw [hpartEq] at hpart
    exact formatValue_read hpart hcolon
  · obtain ⟨late, others, hwords⟩ := exists_words_append_of_not_closed hword hrest hclosed
    have hhead := head?_readTokens (by simp) hwords h
    rw [append_assoc, cons_append] at hhead
    obtain ⟨-, -, part, hpart, hcases⟩ := filter_of_head?_wordTokens hkey hhead
    have hpartEq : ∃ tail, part = formatValue value ++ space :: tail := by
      rcases hcases with heq | heq
      · exact ⟨late, heq⟩
      · obtain ⟨tail, htail⟩ := exists_rdropWhile_append (p := (· = closeParen))
          (formatValue value) space (by decide) late
        exact ⟨tail, heq.trans htail⟩
    obtain ⟨tail, htail⟩ := hpartEq
    rw [htail] at hpart
    exact absurd hpart (removeSurroundingQuotes_ne_of_space value tail)

end Filter

end Sentry.TokenizeSearch
