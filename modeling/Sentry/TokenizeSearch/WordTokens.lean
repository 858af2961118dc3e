import Sentry.TokenizeSearch.Quotes

/-!
# The tokens of a word

What the tokens of the words of a query are (`isToken_of_mem_wordTokens`), and which words are read
as a given filter or free text.
-/

namespace Sentry.TokenizeSearch

open Library OpenWord List

theorem withoutTrailingParens_append {text : Str} (hlast : text.getLast? ≠ some closeParen)
    (after : Str) :
    ∃ rest, withoutTrailingParens (text ++ after) = text ++ rest ∧
      (rest = after ∨ rest = after.rdropWhile (· = closeParen)) := by
  unfold withoutTrailingParens
  split_ifs
  · exact ⟨after, rfl, Or.inl rfl⟩
  · refine ⟨after.rdropWhile (· = closeParen), ?_, Or.inr rfl⟩
    by_cases hafter : after.rdropWhile (· = closeParen) = []
    · rw [hafter, rdropWhile_append_of_all _ (rdropWhile_eq_nil_iff.mp hafter),
        append_nil, rdropWhile_eq_self_iff]
      intro hne
      have hget := getLast?_eq_getLast_of_ne_nil hne
      simpa [hget] using hlast
    · exact rdropWhile_append_of_ne_nil text hafter

theorem withoutTrailingParens_eq_self {text : Str} (hlast : text.getLast? ≠ some closeParen) :
    withoutTrailingParens text = text := by
  obtain ⟨rest, hrest, hcases⟩ := withoutTrailingParens_append hlast []
  have hnil : rest = [] := by rcases hcases with h | h <;> exact h
  rwa [append_nil, hnil, append_nil] at hrest

theorem tokenState_append (i : ℕ) {key : Str} (hcolon : colon ∉ key)
    (hkey : i = 0 → key ≠ [] ∧ key.head? ≠ some doubleQuote) (rest : Str) :
    tokenState i (key ++ colon :: rest) =
      if rest.head? = some colon ∨ rest.head? = some space then .freeText else .filter := by
  induction key generalizing i with
  | nil =>
    have hi : i ≠ 0 := fun hzero ↦ (hkey hzero).1 rfl
    rw [nil_append, tokenState, if_neg fun hand ↦ hi hand.1, if_pos rfl]
  | cons char key ih =>
    rw [mem_cons, not_or] at hcolon
    have hchar : ¬ (i = 0 ∧ (char = doubleQuote ∨ char = colon)) := by
      intro ⟨hzero, hor⟩
      rcases hor with hquote | heq
      · exact (hkey hzero).2 (congrArg some hquote)
      · exact hcolon.1 heq.symm
    rw [cons_append, tokenState, if_neg hchar, if_neg fun heq ↦ hcolon.1 heq.symm]
    exact ih (i + 1) hcolon.2 fun hzero ↦ by omega

theorem exists_of_tokenState_eq_filter {i : ℕ} {token : Str} (h : tokenState i token = .filter) :
    ∃ key rest, token = key ++ colon :: rest ∧ colon ∉ key ∧
      (i = 0 → key ≠ [] ∧ key.head? ≠ some doubleQuote) ∧
      ¬ (rest.head? = some colon ∨ rest.head? = some space) := by
  induction token generalizing i with
  | nil => cases h
  | cons char rest ih =>
    rw [tokenState] at h
    split_ifs at h with hfirst hcolon hnext
    · refine ⟨[], rest, by rw [hcolon]; rfl, not_mem_nil, fun hzero ↦ ?_, hnext⟩
      exact absurd ⟨hzero, Or.inr hcolon⟩ hfirst
    · obtain ⟨key, after, hrest, hkey, -, hnext⟩ := ih h
      refine ⟨char :: key, after, congrArg (char :: ·) hrest, ?_, fun hzero ↦ ⟨?_, ?_⟩, hnext⟩
      · rw [mem_cons, not_or]
        exact ⟨fun heq ↦ hcolon heq.symm, hkey⟩
      · exact cons_ne_nil char key
      · exact fun hhead ↦ hfirst ⟨hzero, Or.inl (Option.some.inj hhead)⟩

theorem parseFilter_append {key : Str} (hcolon : colon ∉ key) (value : Str) :
    parseFilter (key ++ colon :: value) =
      (removeSurroundingQuotes key, removeSurroundingQuotes value) := by
  have hkey : ∀ char ∈ key, (decide (char ≠ colon)) = true := fun char hchar ↦
    decide_eq_true fun heq ↦ hcolon (heq ▸ hchar)
  unfold parseFilter
  rw [if_pos (by simp), takeWhile_append_of_pos hkey, dropWhile_append_of_pos hkey]
  simp

/-- What the keys of filters are. -/
structure IsKey (key : Str) : Prop where
  ne_nil : key ≠ []
  head : ∀ char ∈ key.head?, char ≠ doubleQuote ∧ char ≠ openParen ∧ isSpace char = false
  colon_notMem : colon ∉ key
  unbroken : start.unbroken key = true

/-- What the tokens of a query are. -/
inductive IsToken : Token → Prop
  | operator {value : Str} (h : value ∈ [[openParen], [closeParen], [79, 82], [65, 78, 68]]) :
    IsToken (addOp value)
  | freeText {value : Str} (h : value ≠ [] → Bare value) : IsToken ⟨.freeText, none, value⟩
  | filter {key value : Str} (h : IsKey key) : IsToken ⟨.filter, some key, value⟩

theorem eq_of_mem_takeWhile {char paren : CodeUnit} {text : Str}
    (h : char ∈ text.takeWhile (· = paren)) : char = paren := by
  simpa using mem_takeWhile_imp h

theorem eq_of_mem_rtakeWhile {char paren : CodeUnit} {text : Str}
    (h : char ∈ text.rtakeWhile (· = paren)) : char = paren := by
  simpa using mem_rtakeWhile_imp h

section

variable {word : Str} (h : IsWord word)
include h

theorem unbroken_dropWhile :
    start.unbroken (word.dropWhile (· = openParen)) = true ∧
      ∀ char ∈ (word.dropWhile (· = openParen)).head?, isSpace char = false := by
  have hpushAll : start.pushAll (word.takeWhile (· = openParen)) =
      start.prepend (word.takeWhile (· = openParen)) := pushAll_start_eq fun char hchar ↦ by
    rw [eq_of_mem_takeWhile hchar]
    decide
  have hlast : (word.takeWhile (· = openParen)).getLast? ≠ some backslash := fun hlast ↦ by
    have hparen : backslash = openParen := eq_of_mem_takeWhile (mem_of_getLast? hlast)
    revert hparen
    decide
  have hword := h.unbroken
  rw [← takeWhile_append_dropWhile (p := (· = openParen)) (l := word), unbroken_append,
    Bool.and_eq_true, hpushAll] at hword
  refine ⟨unbroken_of_prepend hlast hword.2, fun char hchar ↦ ?_⟩
  obtain ⟨rest, hrest⟩ := head?_eq_some_iff.mp hchar
  by_cases hparens : word.takeWhile (· = openParen) = []
  · -- the word itself is trimmed
    have htrim := h.trimmed
    rw [← takeWhile_append_dropWhile (p := (· = openParen)) (l := word), hparens,
      nil_append, hrest] at htrim
    refine not_head_dropWhile_rdropWhile (?_ : char ∈ (trim (char :: rest)).head?)
    rw [htrim]
    rfl
  · -- white space would end the word of the parentheses
    obtain ⟨before, last, hparens⟩ :=
      (eq_nil_or_concat (word.takeWhile (· = openParen))).resolve_left hparens
    rw [concat_eq_append] at hparens
    have hlast : last = openParen := eq_of_mem_takeWhile (by rw [hparens]; simp)
    have hclosed : (start.prepend (word.takeWhile (· = openParen))).closed = true := by
      refine (closed_iff _).mpr ⟨rfl, openParen, ?_, by decide⟩
      show openParen ∈ lastWordChar (word.takeWhile (· = openParen) ++ [])
      rw [hparens, append_nil, hlast, lastWordChar_concat]
      rfl
    rw [hrest, unbroken, hclosed] at hword
    have hspace := hword.2
    rw [Bool.and_eq_true] at hspace
    simpa using hspace.1

theorem isKey_of_isWord {key rest : Str}
    (htoken : word.dropWhile (· = openParen) = key ++ colon :: rest) (hne : key ≠ [])
    (hhead : key.head? ≠ some doubleQuote) (hcolon : colon ∉ key) :
    IsKey (removeSurroundingQuotes key) := by
  obtain ⟨hunbroken, hspace⟩ := unbroken_dropWhile h
  obtain ⟨quotes, hquotes⟩ := removeSurroundingQuotes_prefix hhead
  have hnil : removeSurroundingQuotes key ≠ [] := by
    intro hnil
    have hcount := countP_removeSurroundingQuotes key
    rw [hnil, countP_nil, eq_comm, countP_eq_zero] at hcount
    obtain ⟨char, rest, hkey⟩ := exists_cons_of_ne_nil hne
    rw [hkey] at hhead hcount
    exact hhead (congrArg some (by simpa using hcount char mem_cons_self))
  have hmem (char : CodeUnit) (hchar : char ∈ (removeSurroundingQuotes key).head?) :
      char ∈ key.head? := by
    rw [← hquotes]
    exact mem_head?_append_of_mem_head? hchar
  have htokenHead (char : CodeUnit) (hchar : char ∈ key.head?) :
      char ∈ (word.dropWhile (· = openParen)).head? := by
    rw [htoken]
    exact mem_head?_append_of_mem_head? hchar
  refine ⟨hnil, fun char hchar ↦ ⟨fun hquote ↦ ?_, ?_, ?_⟩, fun hmem ↦ ?_, ?_⟩
  · exact hhead (hquote ▸ hmem char hchar)
  · simpa using not_head_dropWhile (htokenHead char (hmem char hchar))
  · exact hspace char (htokenHead char (hmem char hchar))
  · exact hcolon (hquotes ▸ mem_append_left quotes hmem)
  · rw [htoken, ← hquotes, append_assoc, unbroken_append, Bool.and_eq_true] at hunbroken
    exact hunbroken.1

theorem isToken_of_mem_wordTokens {token : Token} (htoken : token ∈ wordTokens word) :
    IsToken token := by
  unfold wordTokens at htoken
  split_ifs at htoken with hop
  · rw [mem_singleton.mp htoken]
    refine .operator ?_
    have hor : toUpperCase word = [79, 82] ∨ toUpperCase word = [65, 78, 68] := by
      simpa [isBooleanOp] using hop
    rcases hor with heq | heq <;> simp [heq]
  rw [mem_append, mem_append] at htoken
  rcases htoken with (hopening | htext) | hclosing
  · obtain ⟨paren, hparen, heq⟩ := mem_map.mp hopening
    rw [← heq, eq_of_mem_takeWhile hparen]
    exact .operator mem_cons_self
  · unfold textTokens at htext
    dsimp only at htext
    split at htext
    next hstate =>
      obtain ⟨key, rest, hkey, hcolon, hne, -⟩ := exists_of_tokenState_eq_filter hstate
      obtain ⟨hne, hhead⟩ := hne rfl
      have hlast : (key ++ [colon]).getLast? ≠ some closeParen := by
        rw [getLast?_concat]
        decide
      obtain ⟨after, hafter, -⟩ := withoutTrailingParens_append hlast rest
      have htext' : withoutTrailingParens (word.dropWhile (· = openParen)) =
          key ++ colon :: after := by
        rw [hkey, append_cons, hafter, append_assoc]
        rfl
      rw [mem_singleton.mp htext, addStringFilter, htext', parseFilter_append hcolon]
      exact .filter (isKey_of_isWord h hkey hne hhead hcolon)
    · split_ifs at htext with hnil
      · cases htext
      · rw [mem_singleton.mp htext]
        exact .freeText bare_formatQuery
  · obtain ⟨paren, hparen, heq⟩ := mem_map.mp hclosing
    unfold trailingParens at hparen
    split_ifs at hparen
    · cases hparen
    · rw [← heq, eq_of_mem_rtakeWhile hparen]
      exact .operator (by decide)

end

theorem withoutTrailingParens_append_trailingParens (text : Str) :
    withoutTrailingParens text ++ trailingParens text = text := by
  unfold withoutTrailingParens trailingParens
  split_ifs
  · exact append_nil text
  · exact rdropWhile_append_rtakeWhile

theorem textTokens_eq (token : Str) :
    textTokens token =
      if tokenState 0 token = .filter then [addStringFilter (withoutTrailingParens token)]
      else if withoutTrailingParens token = [] then []
      else [addFreeText (withoutTrailingParens token)] := by
  unfold textTokens
  cases tokenState 0 token <;> rfl

section

variable {word : Str}

theorem wordTokens_of_head?_ne (h : word.head? ≠ some openParen) :
    wordTokens word = if isBooleanOp word then [addOp (toUpperCase word)]
      else textTokens word ++ (trailingParens word).map fun paren ↦ addOp [paren] := by
  have hparens : word.takeWhile (· = openParen) = [] ∧ word.dropWhile (· = openParen) = word := by
    cases word with
    | nil => exact ⟨rfl, rfl⟩
    | cons char rest =>
      have hchar : ¬ (decide (char = openParen)) = true := fun heq ↦
        h (congrArg some (of_decide_eq_true heq))
      exact ⟨takeWhile_cons_of_neg hchar, dropWhile_cons_of_neg hchar⟩
  unfold wordTokens
  rw [hparens.1, hparens.2]
  rfl

theorem wordTokens_ne_nil (h : word ≠ []) : wordTokens word ≠ [] := by
  by_cases hhead : word.head? = some openParen
  · unfold wordTokens
    split_ifs
    · exact cons_ne_nil _ _
    · obtain ⟨rest, hrest⟩ := head?_eq_some_iff.mp hhead
      simp [hrest]
  · rw [wordTokens_of_head?_ne hhead, textTokens_eq]
    have hparens := withoutTrailingParens_append_trailingParens word
    split_ifs with hop hfilter hnil
    · exact cons_ne_nil _ _
    · exact cons_ne_nil _ _
    · rw [hnil, nil_append] at hparens
      rw [hparens]
      simpa using h
    · exact cons_ne_nil _ _

theorem exists_of_head?_wordTokens (hhead : word.head? ≠ some openParen) {token : Token}
    (h : (wordTokens word).head? = some token) (htype : token.type ≠ .operator) :
    isBooleanOp word = false ∧
      ((tokenState 0 word = .filter ∧ token = addStringFilter (withoutTrailingParens word)) ∨
        (tokenState 0 word ≠ .filter ∧ token = addFreeText (withoutTrailingParens word))) := by
  rw [wordTokens_of_head?_ne hhead, textTokens_eq] at h
  split_ifs at h with hop hfilter hnil
  · exact absurd (congrArg Token.type (Option.some.inj h)).symm htype
  · exact ⟨Bool.eq_false_iff.mpr hop, Or.inl ⟨hfilter, (Option.some.inj h).symm⟩⟩
  · rw [nil_append, head?_map] at h
    obtain ⟨paren, -, heq⟩ := Option.map_eq_some_iff.mp h
    exact absurd (congrArg Token.type heq).symm htype
  · exact ⟨Bool.eq_false_iff.mpr hop, Or.inr ⟨hfilter, (Option.some.inj h).symm⟩⟩

end

end Sentry.TokenizeSearch
