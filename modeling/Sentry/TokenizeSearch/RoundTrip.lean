import Sentry.TokenizeSearch.ReadBack

/-!
# Printing and reading a query

A query is printed and read back with the same tokens if and only if each of its words survives
(`parse_formatString_iff`).
-/

namespace Sentry.TokenizeSearch

open OpenWord List

def Readable (token : Token) : Prop :=
  match token.type with
  | .operator => True
  | .freeText => FreeTextReadable token.value
  | .filter => FilterReadable (token.key.getD []) token.value

def TokensSurvive (last : Bool) : List Token → Prop
  | [] => True
  | token :: rest =>
    Readable token ∧
      ((rest = [] ∧ last = true) ∨ (start.pushAll (formatToken token)).closed = true) ∧
      TokensSurvive last rest

def formatTokens (tokens : List Token) : Str := List.intercalate [space] (tokens.map formatToken)

def formatRest : List Token → Str
  | [] => []
  | token :: rest => space :: formatTokens (token :: rest)

theorem formatTokens_cons (token : Token) (rest : List Token) :
    formatTokens (token :: rest) = formatToken token ++ formatRest rest := by
  cases rest with
  | nil =>
    rw [formatRest, append_nil]
    exact intercalate_singleton
  | cons other rest =>
    unfold formatRest formatTokens
    rfl

theorem formatRest_eq (tokens : List Token) :
    formatRest tokens = [] ∨ ∃ more, formatRest tokens = space :: more := by
  cases tokens with
  | nil => exact Or.inl rfl
  | cons token rest => exact Or.inr ⟨_, rfl⟩

theorem readTokens_formatRest (tokens : List Token) :
    readTokens (formatRest tokens) = readTokens (formatTokens tokens) := by
  cases tokens with
  | nil => rfl
  | cons token rest => exact congrArg parseParts (words_space_cons (by decide) _)

theorem readTokens_append {token : Token} (hword : IsWord (formatToken token))
    (hread : wordTokens (formatToken token) = [token]) {rest : List Token}
    (hclosed : (start.pushAll (formatToken token)).closed = true ∨ trim (formatRest rest) = []) :
    readTokens (formatTokens (token :: rest)) = token :: readTokens (formatTokens rest) := by
  rw [formatTokens_cons, ← readTokens_formatRest]
  unfold readTokens
  rw [words_append_of_closed hword (formatRest_eq rest) hclosed]
  unfold parseParts
  rw [flatMap_cons, hread]
  rfl

theorem operator_readable {value : Str}
    (h : value ∈ [[openParen], [closeParen], [79, 82], [65, 78, 68]]) :
    IsWord value ∧ wordTokens value = [addOp value] ∧ (start.pushAll value).closed = true := by
  have hall : (value ≠ [] ∧ trim value = value ∧ start.unbroken value = true) ∧
      wordTokens value = [addOp value] ∧ (start.pushAll value).closed = true := by
    revert value
    decide
  exact ⟨⟨hall.1.1, hall.1.2.1, hall.1.2.2⟩, hall.2⟩

section Token

variable {token : Token} (h : IsToken token)
include h

theorem wordTokens_of_readable (hread : Readable token) :
    IsWord (formatToken token) ∧ wordTokens (formatToken token) = [token] := by
  cases h with
  | operator hop => exact ⟨(operator_readable hop).1, (operator_readable hop).2.1⟩
  | freeText hbare =>
    exact ⟨isWord_quoteIfNeeded hread.1, wordTokens_quoteIfNeeded (hbare hread.1) hread⟩
  | filter hkey => exact ⟨isWord_filter hkey hread.2.2, wordTokens_filter hkey hread⟩

theorem readable_of_head? (hne : token ≠ ⟨.freeText, none, []⟩) {rest : List Token}
    (hhead : (readTokens (formatTokens (token :: rest))).head? = some token) :
    Readable token ∧
      ((start.pushAll (formatToken token)).closed = true ∨ trim (formatRest rest) = []) := by
  rw [formatTokens_cons] at hhead
  cases h with
  | operator hop => exact ⟨trivial, Or.inl (operator_readable hop).2.2⟩
  | freeText hbare =>
    refine freeText_of_head?_readTokens (hbare fun hnil ↦ hne ?_) (formatRest_eq rest) hhead
    rw [hnil]
  | filter hkey => exact filter_of_head?_readTokens hkey (formatRest_eq rest) hhead

end Token

theorem head?_readTokens_ne_empty {tokens : List Token} (h : ∀ token ∈ tokens, IsToken token) :
    (readTokens (formatTokens tokens)).head? ≠ some ⟨.freeText, none, []⟩ := by
  induction tokens with
  | nil => exact fun hhead ↦ by cases hhead
  | cons token rest ih =>
    intro hhead
    cases h token mem_cons_self with
    | @operator value hop =>
      obtain ⟨hword, hread⟩ := wordTokens_of_readable (.operator hop) trivial
      rw [readTokens_append hword hread (Or.inl (operator_readable hop).2.2)] at hhead
      cases hhead
    | @freeText value hbare =>
      rw [formatTokens_cons] at hhead
      by_cases hnil : value = []
      · rw [hnil] at hhead
        refine ih (fun other hother ↦ h other (mem_cons_of_mem _ hother)) ?_
        rw [← readTokens_formatRest]
        exact hhead
      · have hword : IsWord (quoteIfNeeded value) := isWord_quoteIfNeeded hnil
        obtain ⟨before, after, -, -, hwords, -⟩ := exists_words_append hword (formatRest rest)
        have hfirst := head?_readTokens (by simp [hword.ne_nil]) hwords hhead
        unfold quoteIfNeeded at hfirst
        split_ifs at hfirst
        · have hvalue := (eq_of_head?_wordTokens [doubleQuote] (doubleQuote :: _) (by simp)
            (bare_escapeDoubleQuotes (hbare hnil)) (by simpa [inQuotes] using hfirst)).2.2
          exact escapeDoubleQuotes_ne_nil hnil (append_eq_nil_iff.mp hvalue.symm).1
        · have hvalue := (eq_of_head?_wordTokens [] _ (by simp) (hbare hnil) hfirst).2.2
          exact hnil (append_eq_nil_iff.mp hvalue.symm).1
    | @filter key value hkey =>
      rw [formatTokens_cons] at hhead
      obtain ⟨before, after, -, -, hwords, -⟩ :=
        exists_words_append (isWord_key hkey) (formatValue value ++ formatRest rest)
      have hfirst := head?_readTokens (by simp) hwords (by simpa [formatToken] using hhead)
      exact head?_wordTokens_ne_empty hkey _ hfirst

theorem readTokens_formatTokens_iff {tokens : List Token} (h : ∀ token ∈ tokens, IsToken token) :
    readTokens (formatTokens tokens) = tokens ↔ TokensSurvive true tokens := by
  induction tokens with
  | nil => exact ⟨fun _ ↦ trivial, fun _ ↦ rfl⟩
  | cons token rest ih =>
    have htoken := h token mem_cons_self
    have hrest (other : Token) (hother : other ∈ rest) : IsToken other :=
      h other (mem_cons_of_mem _ hother)
    constructor
    · intro heq
      have hne : token ≠ ⟨.freeText, none, []⟩ := by
        intro hempty
        refine head?_readTokens_ne_empty hrest ?_
        rw [← readTokens_formatRest, ← hempty, ← head?_cons (l := rest), ← heq,
          formatTokens_cons, hempty]
        rfl
      obtain ⟨hread, hclosed⟩ := readable_of_head? htoken hne (by rw [heq]; rfl)
      obtain ⟨hword, hone⟩ := wordTokens_of_readable htoken hread
      rw [readTokens_append hword hone hclosed] at heq
      have hsame := (List.cons.inj heq).2
      refine ⟨hread, ?_, (ih hrest).mp hsame⟩
      rcases hclosed with hclosed | hblank
      · exact Or.inr hclosed
      · refine Or.inl ⟨?_, rfl⟩
        rw [← hsame, ← readTokens_formatRest, readTokens, ← words_trim, hblank]
        rfl
    · rintro ⟨hread, hclosed, hsurvive⟩
      obtain ⟨hword, hone⟩ := wordTokens_of_readable htoken hread
      rw [readTokens_append hword hone, (ih hrest).mpr hsurvive]
      rcases hclosed with ⟨hnil, -⟩ | hclosed
      · right
        rw [hnil]
        rfl
      · exact Or.inl hclosed

def FreeTextSurvives (value : Str) (last : Bool) : Prop :=
  FreeTextReadable value ∧ (last = true ∨ (start.pushAll (quoteIfNeeded value)).closed = true)

def FilterSurvives (filter : Str × Str) (last : Bool) : Prop :=
  FilterReadable filter.1 filter.2 ∧
    (last = true ∨ (start.pushAll (filter.1 ++ colon :: formatValue filter.2)).closed = true)

def WordSurvives (word : Str) (last : Bool) : Prop :=
  isBooleanOp word = true ∨
    let token := word.dropWhile (· = openParen)
    let text := withoutTrailingParens token
    if tokenState 0 token = .filter then
      FilterSurvives (parseFilter text) (last && (trailingParens token).isEmpty)
    else text = [] ∨ FreeTextSurvives (formatQuery text) (last && (trailingParens token).isEmpty)

/-- All words survive. -/
def WordsSurvive : List Str → Prop
  | [] => True
  | word :: rest => WordSurvives word rest.isEmpty ∧ WordsSurvive rest

instance (value : Str) (last : Bool) : Decidable (FreeTextSurvives value last) :=
  inferInstanceAs (Decidable ((_ ∧ ite _ _ _) ∧ _))

instance (filter : Str × Str) (last : Bool) : Decidable (FilterSurvives filter last) :=
  inferInstanceAs (Decidable ((_ ∧ ite _ _ _ ∧ _) ∧ _))

instance (word : Str) (last : Bool) : Decidable (WordSurvives word last) :=
  inferInstanceAs (Decidable (_ ∨ ite _ _ _))

instance decidableWordsSurvive : DecidablePred WordsSurvive
  | [] => inferInstanceAs (Decidable True)
  | word :: rest =>
    have := decidableWordsSurvive rest
    inferInstanceAs (Decidable (WordSurvives word rest.isEmpty ∧ WordsSurvive rest))

theorem tokensSurvive_append (last : Bool) (tokens rest : List Token) :
    TokensSurvive last (tokens ++ rest) ↔
      TokensSurvive (last && rest.isEmpty) tokens ∧ TokensSurvive last rest := by
  induction tokens with
  | nil => exact (true_and _).symm ▸ Iff.rfl
  | cons token tokens ih =>
    rw [cons_append, TokensSurvive, TokensSurvive, ih, append_eq_nil_iff,
      Bool.and_eq_true, List.isEmpty_iff]
    constructor
    · intro ⟨hread, hclosed, htokens, hrest⟩
      refine ⟨⟨hread, hclosed.imp_left ?_, htokens⟩, hrest⟩
      exact fun hlast ↦ ⟨hlast.1.1, hlast.2, hlast.1.2⟩
    · intro ⟨⟨hread, hclosed, htokens⟩, hrest⟩
      refine ⟨hread, hclosed.imp_left ?_, htokens, hrest⟩
      exact fun hlast ↦ ⟨⟨hlast.1, hlast.2.2⟩, hlast.2.1⟩

theorem tokensSurvive_parens (last : Bool) {parens : Str} {paren : CodeUnit}
    (hparen : paren = openParen ∨ paren = closeParen) (h : ∀ char ∈ parens, char = paren) :
    TokensSurvive last (parens.map fun char ↦ addOp [char]) := by
  induction parens with
  | nil => trivial
  | cons char rest ih =>
    refine ⟨trivial, Or.inr ?_, ih fun other hother ↦ h other (mem_cons_of_mem _ hother)⟩
    rw [h char mem_cons_self]
    rcases hparen with heq | heq
    · rw [heq]
      decide
    · rw [heq]
      decide

theorem tokensSurvive_singleton (last : Bool) (token : Token) :
    TokensSurvive last [token] ↔
      Readable token ∧ (last = true ∨ (start.pushAll (formatToken token)).closed = true) := by
  simp [TokensSurvive]

theorem tokensSurvive_wordTokens (word : Str) (last : Bool) :
    TokensSurvive last (wordTokens word) ↔ WordSurvives word last := by
  unfold wordTokens WordSurvives
  by_cases hop : isBooleanOp word = true
  · rw [if_pos hop, tokensSurvive_singleton]
    have hor : toUpperCase word = [79, 82] ∨ toUpperCase word = [65, 78, 68] := by
      simpa [isBooleanOp] using hop
    have hclosed : (start.pushAll (toUpperCase word)).closed = true := by
      rcases hor with heq | heq
      · rw [heq]
        decide
      · rw [heq]
        decide
    exact ⟨fun _ ↦ Or.inl hop, fun _ ↦ ⟨trivial, Or.inr hclosed⟩⟩
  · have hopening (last : Bool) : TokensSurvive last
        ((word.takeWhile (· = openParen)).map fun paren ↦ addOp [paren]) :=
      tokensSurvive_parens last (Or.inl rfl) fun _ ↦ eq_of_mem_takeWhile
    have hclosing : TokensSurvive last
        ((trailingParens (word.dropWhile (· = openParen))).map fun paren ↦ addOp [paren]) := by
      refine tokensSurvive_parens last (Or.inr rfl) fun paren hparen ↦ ?_
      unfold trailingParens at hparen
      split_ifs at hparen
      · cases hparen
      · exact eq_of_mem_rtakeWhile hparen
    rw [if_neg hop, tokensSurvive_append, tokensSurvive_append, textTokens_eq, isEmpty_map]
    simp only [hopening, hclosing, true_and, and_true, hop, Bool.false_eq_true, false_or]
    split_ifs with hfilter hnil
    · exact tokensSurvive_singleton _ _
    · exact ⟨fun _ ↦ Or.inl hnil, fun _ ↦ trivial⟩
    · rw [tokensSurvive_singleton]
      exact ⟨fun h ↦ Or.inr h, fun h ↦ h.resolve_left hnil⟩

theorem tokensSurvive_parseParts {words : List Str} (h : ∀ word ∈ words, word ≠ []) :
    TokensSurvive true (parseParts words) ↔ WordsSurvive words := by
  induction words with
  | nil => exact Iff.rfl
  | cons word rest ih =>
    have hrest (other : Str) (hother : other ∈ rest) : other ≠ [] :=
      h other (mem_cons_of_mem _ hother)
    have hempty : (parseParts rest).isEmpty = rest.isEmpty := by
      cases rest with
      | nil => rfl
      | cons other rest =>
        have hother := wordTokens_ne_nil (hrest other mem_cons_self)
        exact isEmpty_eq_false_iff.mpr (append_ne_nil_of_left_ne_nil hother _)
    have hparts : parseParts (word :: rest) = wordTokens word ++ parseParts rest := rfl
    rw [hparts, tokensSurvive_append, Bool.true_and, hempty, tokensSurvive_wordTokens, ih hrest]
    rfl

/-- A query is printed and read back with the same tokens if and only if its words survive. -/
theorem parse_formatString_iff (query : Str) :
    parse (formatString (parse query)) = parse query ↔
      WordsSurvive (splitSearchIntoTokens query) := by
  have hwords (word : Str) (hword : word ∈ splitSearchIntoTokens query) : IsWord word := by
    rw [splitSearchIntoTokens_eq] at hword
    exact @isWord_of_mem_words [] _ rfl _ hword
  have htokens (token : Token) (htoken : token ∈ parse query) : IsToken token := by
    obtain ⟨word, hword, hmem⟩ := mem_flatMap.mp htoken
    exact isToken_of_mem_wordTokens (hwords word hword) hmem
  have hread : parse (formatString (parse query)) = readTokens (formatTokens (parse query)) := by
    rw [parse_eq]
    exact congrArg parseParts (words_trim _)
  rw [hread, readTokens_formatTokens_iff htokens]
  exact tokensSurvive_parseParts fun word hword ↦ (hwords word hword).ne_nil

example : WordsSurvive (splitSearchIntoTokens
    ("(a:b OR \"x y\") it's".toList.map fun char ↦ .ofNat char.toNat)) := by
  decide

/-- Quotes keep a word from being an operator. -/
theorem parse_formatString_ne :
    parse (formatString (parse [doubleQuote, 111, 114, doubleQuote])) ≠
      parse [doubleQuote, 111, 114, doubleQuote] := by
  decide

end Sentry.TokenizeSearch
