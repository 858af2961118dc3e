import Sentry.TokenizeSearch.MutableSearch

/-!
# The words of a query

`splitSearchIntoTokens` looks ahead and keeps the end of the previous word. It reads the words that
come from reading one character at a time (`splitSearchIntoTokens_eq`): white space ends a word
outside quotes if the last character before it is no colon, and a quote is left by the same quote if
no backslash stands before it.
-/

namespace Sentry.TokenizeSearch

open List

def lastWordChar (text : Str) : Option CodeUnit := text.reverse.find? fun char ↦ !isSpace char

@[simp] theorem lastWordChar_nil : lastWordChar [] = none := rfl

@[simp] theorem lastWordChar_concat (text : Str) (char : CodeUnit) :
    lastWordChar (text ++ [char]) = if isSpace char then lastWordChar text else some char := by
  unfold lastWordChar
  rw [reverse_append, reverse_singleton, singleton_append, find?_cons]
  cases isSpace char <;> rfl

theorem lastWordChar_eq_none_iff (text : Str) : lastWordChar text = none ↔ text.all isSpace := by
  simp [lastWordChar, find?_eq_none]

theorem lastWordChar_append (text rest : Str) :
    lastWordChar (text ++ rest) = (lastWordChar rest).or (lastWordChar text) := by
  unfold lastWordChar
  rw [reverse_append, find?_append]

theorem trim_blank_append {blank : Str} (hblank : blank.all isSpace) (text : Str) :
    trim (blank ++ text) = trim text := by
  unfold trim
  rw [dropWhile_append_of_pos (List.all_eq_true.mp hblank)]

theorem trim_concat (text : Str) {char : CodeUnit} (hchar : isSpace char = true) :
    trim (text ++ [char]) = trim text := by
  unfold trim
  rw [dropWhile_append]
  split_ifs with hempty
  · rw [List.isEmpty_iff.mp hempty, dropWhile_cons_of_pos hchar]
    rfl
  · rw [rdropWhile_concat_pos _ _ _ hchar]

theorem trim_eq_nil_iff (text : Str) : trim text = [] ↔ text.all isSpace := by
  unfold trim
  rw [rdropWhile_eq_nil_iff, all_eq_true]
  refine ⟨fun h char hchar ↦ ?_, fun h char hchar ↦ h char
    ((dropWhile_sublist _).subset hchar)⟩
  have hdrop : text.dropWhile isSpace = [] := by
    by_contra hne
    have hhead := head_dropWhile_not isSpace hne
    rw [h _ (head_mem hne)] at hhead
    exact Bool.noConfusion hhead
  exact List.dropWhile_eq_nil_iff.mp hdrop char hchar

theorem lastWordChar_ne_none_iff (text : Str) : lastWordChar text ≠ none ↔ trim text ≠ [] := by
  rw [ne_eq, ne_eq, lastWordChar_eq_none_iff, trim_eq_nil_iff]

theorem trim_eq_self {text : Str} (hhead : ∀ char ∈ text.head?, isSpace char = false)
    (hlast : ∀ char ∈ text.getLast?, isSpace char = false) : trim text = text := by
  have hdrop : text.dropWhile isSpace = text := by
    cases text with
    | nil => rfl
    | cons char rest => exact dropWhile_cons_of_neg (by simp [hhead char rfl])
  unfold trim
  rw [hdrop, rdropWhile_eq_self_iff]
  intro hne
  simp [hlast _ (getLast?_eq_getLast_of_ne_nil hne)]

/-- The text of a word so far, and the quote that it is in. -/
structure OpenWord where
  text : Str
  quote : Option CodeUnit

namespace OpenWord

/-- Nothing is read yet. -/
def start : OpenWord := ⟨[], none⟩

def quoteAfter (word : OpenWord) (char : CodeUnit) : Option CodeUnit :=
  match word.quote with
  | none => if char = singleQuote ∨ char = doubleQuote then some char else none
  | some quote => if char = quote ∧ word.text.getLast? ≠ some backslash then none else some quote

def push (word : OpenWord) (char : CodeUnit) : OpenWord :=
  ⟨word.text ++ [char], word.quoteAfter char⟩

def closed (word : OpenWord) : Bool :=
  word.quote.isNone && (lastWordChar word.text).any (· ≠ colon)

def words : OpenWord → Str → List Str
  | word, [] => if trim word.text = [] then [] else [trim word.text]
  | word, char :: rest =>
    if isSpace char && word.closed then trim word.text :: words start rest
    else words (word.push char) rest

section

variable {word : OpenWord} {char : CodeUnit} (rest : Str)

theorem words_of_closed (h : (isSpace char && word.closed) = true) :
    word.words (char :: rest) = trim word.text :: start.words rest :=
  if_pos h

theorem words_of_not_closed (h : (isSpace char && word.closed) ≠ true) :
    word.words (char :: rest) = (word.push char).words rest :=
  if_neg h

end

end OpenWord

open OpenWord

/-- The variables of the loop hold the word, before the next character. -/
structure Holds (s : SplitState) (word : OpenWord) (next : Option CodeUnit) : Prop where
  token : s.token = word.text
  enclosed : s.quoteEnclosed = word.quote.isSome
  quoteType : ∀ quote ∈ word.quote,
    s.quoteType = some quote ∧ (quote = singleQuote ∨ quote = doubleQuote)
  endOfPrevWord : word.quote = none → ∀ char ∈ lastWordChar word.text,
    next.any isSpace ∨ word.text.getLast?.any isSpace → s.endOfPrevWord = some char

def Unescaped (word : OpenWord) (next : Option CodeUnit) : Prop :=
  ∀ quote ∈ word.quote, word.text.getLast? = some backslash → next ≠ some quote

theorem isSpace_of_quote {quote : CodeUnit} (h : quote = singleQuote ∨ quote = doubleQuote) :
    isSpace quote = false ∧ quote ≠ backslash := by
  rcases h with rfl | rfl <;> decide

theorem quoteAfter_of_not_quote {char : CodeUnit}
    (hchar : ¬ (char = singleQuote ∨ char = doubleQuote)) {word : OpenWord}
    (hquote : ∀ quote ∈ word.quote, quote = singleQuote ∨ quote = doubleQuote) :
    word.quoteAfter char = word.quote := by
  unfold quoteAfter
  cases h : word.quote with
  | none => exact if_neg hchar
  | some quote =>
    refine if_neg fun hand ↦ hchar ?_
    rw [hand.1]
    exact hquote quote h

theorem not_quote_of_isSpace {char : CodeUnit} (hchar : isSpace char = true) :
    ¬ (char = singleQuote ∨ char = doubleQuote) := by
  intro hor
  rw [(isSpace_of_quote hor).1] at hchar
  exact Bool.noConfusion hchar

namespace SplitState

variable {s : SplitState} {word : OpenWord} {char : CodeUnit} {next : Option CodeUnit}

section

variable (h : Holds s word (some char))

include h

theorem endToken_markEndOfWord :
    ({ s with token := s.token ++ [char] }.markEndOfWord char next).endToken char =
      if isSpace char && word.closed then
        { s with
          tokens := s.tokens ++ [trim word.text]
          token := [] }
      else { s with token := s.token ++ [char] }.markEndOfWord char next := by
  unfold endToken markEndOfWord
  by_cases hchar : isSpace char
  · have hends : (!s.quoteEnclosed && s.endOfPrevWord ≠ some colon &&
        !(s.token ++ [char]).all isSpace) = word.closed := by
      have hall : (s.token ++ [char]).all isSpace = (lastWordChar word.text).isNone := by
        rw [h.token, Bool.eq_iff_iff, Option.isNone_iff_eq_none, lastWordChar_eq_none_iff]
        simp [hchar]
      unfold closed
      rw [h.enclosed, hall]
      cases hquote : word.quote with
      | some quote => rfl
      | none =>
        cases hlast : lastWordChar word.text with
        | none => simp
        | some last =>
          have hend := h.endOfPrevWord hquote last hlast (Or.inl (by simpa using hchar))
          simp [hend]
    simp only [hchar, Bool.not_true, Bool.and_false, Bool.false_eq_true, if_false, Bool.true_and]
    rw [hends, h.token, trim_concat _ hchar]
  · simp [hchar]

theorem read_of_closed (hclosed : (isSpace char && word.closed) = true) :
    s.read char next = { s with
      tokens := s.tokens ++ [trim word.text]
      token := [] } := by
  have hchar : isSpace char = true := (Bool.and_eq_true _ _ ▸ hclosed).1
  have hquote := not_quote_of_isSpace hchar
  unfold read
  rw [endToken_markEndOfWord h, if_pos hclosed]
  unfold toggleQuote
  simpa using fun hor ↦ absurd hor hquote

theorem holds_start (hclosed : (isSpace char && word.closed) = true) :
    Holds (s.read char next) start next := by
  have hnone : word.quote = none := by
    have hand := (Bool.and_eq_true _ _ ▸ hclosed).2
    exact Option.isNone_iff_eq_none.mp (Bool.and_eq_true _ _ ▸ hand).1
  rw [read_of_closed h hclosed]
  refine ⟨rfl, ?_, fun _ hquote ↦ ?_, fun _ _ hlast ↦ ?_⟩
  · rw [h.enclosed, hnone]
    rfl
  · cases hquote
  · cases hlast

theorem read_of_not_closed (hclosed : (isSpace char && word.closed) ≠ true) :
    s.read char next =
      ({ s with token := s.token ++ [char] }.markEndOfWord char next).toggleQuote char := by
  unfold read
  rw [endToken_markEndOfWord h, if_neg hclosed]

theorem toggleQuote_holds (hescaped : Unescaped word (some char)) :
    (s.toggleQuote char).quoteEnclosed = (word.quoteAfter char).isSome ∧
      ∀ quote ∈ word.quoteAfter char, (s.toggleQuote char).quoteType = some quote ∧
        (quote = singleQuote ∨ quote = doubleQuote) := by
  unfold toggleQuote quoteAfter
  rw [h.enclosed]
  cases hquote : word.quote with
  | none =>
    by_cases hchar : char = singleQuote ∨ char = doubleQuote
    · simp [hchar]
    · simp [hchar, h.enclosed, hquote]
  | some quote =>
    obtain ⟨htype, hkind⟩ := h.quoteType quote hquote
    rw [htype]
    by_cases hchar : char = quote
    · have hlast : word.text.getLast? ≠ some backslash := fun hlast ↦
        hescaped quote hquote hlast (by rw [hchar])
      simp [hchar, hkind, hlast]
    · have hne : quote ≠ char := fun heq ↦ hchar heq.symm
      simp [hchar, hne, h.enclosed, hquote, htype, hkind]

theorem holds_push (hescaped : Unescaped word (some char))
    (hclosed : (isSpace char && word.closed) ≠ true) :
    (s.read char next).tokens = s.tokens ∧ Holds (s.read char next) (word.push char) next := by
  have hfields : (s.read char next).tokens = s.tokens ∧
      (s.read char next).token = s.token ++ [char] ∧
      (s.read char next).quoteEnclosed = (s.toggleQuote char).quoteEnclosed ∧
      (s.read char next).quoteType = (s.toggleQuote char).quoteType ∧
      (s.read char next).endOfPrevWord =
        if next.any isSpace && !isSpace char then some char else s.endOfPrevWord := by
    rw [read_of_not_closed h hclosed]
    unfold markEndOfWord toggleQuote
    split_ifs <;> simp_all
  obtain ⟨htokens, htoken, henclosed, htype, hend⟩ := hfields
  obtain ⟨hsome, hkind⟩ := toggleQuote_holds h hescaped
  refine ⟨htokens, by rw [htoken, h.token]; rfl, henclosed.trans hsome,
    fun quote hquote ↦ by rw [htype]; exact hkind quote hquote, fun hnone last hlast hspace ↦ ?_⟩
  rw [hend]
  have hconcat : last ∈ lastWordChar (word.text ++ [char]) := hlast
  rw [lastWordChar_concat] at hconcat
  by_cases hchar : isSpace char
  · rw [if_pos hchar] at hconcat
    rw [if_neg (by simp [hchar])]
    have hbefore : word.quote = none := by
      rw [← quoteAfter_of_not_quote (not_quote_of_isSpace hchar)
        fun quote hquote ↦ (h.quoteType quote hquote).2]
      exact hnone
    exact h.endOfPrevWord hbefore last hconcat (Or.inl hchar)
  · rw [if_neg hchar] at hconcat
    have hnext : next.any isSpace := by simpa [push, hchar] using hspace
    rw [if_pos (by simp [hnext, hchar])]
    exact hconcat

end

theorem holds_skip {quote : CodeUnit} (h : Holds s word (some quote))
    (hescapes : s.escapes char (some quote) = true) (hlast : word.text.getLast? = some char) :
    Holds { s with token := s.token ++ [quote] } (word.push quote) next ∧
      (isSpace quote && word.closed) ≠ true ∧ Unescaped (word.push quote) next := by
  have hparts : (s.quoteEnclosed = true ∧ char = backslash) ∧ some quote = s.quoteType := by
    simpa [escapes] using hescapes
  obtain ⟨⟨henclosed, hchar⟩, htype⟩ := hparts
  obtain ⟨entered, hentered⟩ := Option.isSome_iff_exists.mp (h.enclosed.symm.trans henclosed)
  obtain ⟨hquoteType, hkind⟩ := h.quoteType entered hentered
  have hsame : entered = quote := Option.some.inj (hquoteType.symm.trans htype.symm)
  have hafter : word.quoteAfter quote = some quote := by
    unfold quoteAfter
    rw [hentered, hsame, hlast, hchar]
    exact if_neg fun hand ↦ hand.2 rfl
  rw [hsame] at hkind
  refine ⟨⟨congrArg (· ++ [quote]) h.token, ?_, fun other hother ↦ ?_, fun hnone ↦ ?_⟩, ?_, ?_⟩
  · show s.quoteEnclosed = (word.quoteAfter quote).isSome
    rw [henclosed, hafter]
    rfl
  · have hother : other ∈ word.quoteAfter quote := hother
    rw [hafter] at hother
    cases hother
    exact ⟨htype.symm, hkind⟩
  · have hnone : word.quoteAfter quote = none := hnone
    rw [hafter] at hnone
    cases hnone
  · simp [(isSpace_of_quote hkind).1]
  · intro _ _ hbackslash
    have hquote : quote = backslash := by simpa [push] using hbackslash
    exact absurd hquote (isSpace_of_quote hkind).2

theorem unescaped_push {nextChar : CodeUnit} (h : Holds s (word.push char) (some nextChar))
    (hescapes : ¬ s.escapes char (some nextChar) = true) :
    Unescaped (word.push char) (some nextChar) := by
  intro quote hquote hlast hnext
  have hchar : char = backslash := by simpa [push] using hlast
  have henclosed : s.quoteEnclosed = true := by
    rw [h.enclosed, Option.mem_def.mp hquote]
    rfl
  refine hescapes ?_
  simp [escapes, henclosed, hchar, (h.quoteType quote hquote).1, hnext]

theorem loop_eq (s : SplitState) (query : Str) (word : OpenWord) (h : Holds s word query.head?)
    (hescaped : Unescaped word query.head?) :
    (if trim (s.loop query).token = [] then (s.loop query).tokens
      else (s.loop query).tokens ++ [trim (s.loop query).token]) =
      s.tokens ++ word.words query := by
  fun_induction SplitState.loop s query generalizing word with
  | case1 s =>
    rw [h.token, words]
    split_ifs
    · exact (append_nil _).symm
    · rfl
  | case2 s char =>
    by_cases hclosed : (isSpace char && word.closed) = true
    · rw [read_of_closed h hclosed, words_of_closed _ hclosed]
      rfl
    · obtain ⟨htokens, hpush⟩ := holds_push  h hescaped hclosed
      rw [hpush.token, htokens, words_of_not_closed _ hclosed, words]
      split_ifs
      · exact (append_nil _).symm
      · rfl
  | case3 s char nextChar rest after hescapes ih =>
    by_cases hclosed : (isSpace char && word.closed) = true
    · have hstart : Holds after start (some nextChar) := holds_start h hclosed
      have hnot : after.escapes char (some nextChar) = false := by
        unfold escapes
        rw [hstart.enclosed]
        rfl
      rw [hnot] at hescapes
      exact Bool.noConfusion hescapes
    · obtain ⟨htokens, hpush⟩ := holds_push  h hescaped hclosed
      obtain ⟨hskip, hopen, hunescaped⟩ :=
        holds_skip  hpush hescapes (by simp [push])
      rw [ih _ hskip hunescaped, words_of_not_closed _ hclosed, words_of_not_closed _ hopen]
      exact congrArg (· ++ _) htokens
  | case4 s char nextChar rest after hescapes ih =>
    by_cases hclosed : (isSpace char && word.closed) = true
    · have hread : after = _ := read_of_closed h hclosed
      rw [ih start (holds_start h hclosed) (fun _ hquote ↦ by cases hquote),
        words_of_closed (nextChar :: rest) hclosed, hread]
      exact append_assoc _ _ _
    · obtain ⟨htokens, hpush⟩ := holds_push  h hescaped hclosed
      rw [ih _ hpush (unescaped_push hpush hescapes),
        words_of_not_closed (nextChar :: rest) hclosed]
      exact congrArg (· ++ _) htokens

end SplitState

theorem splitSearchIntoTokens_eq (query : Str) :
    splitSearchIntoTokens query = start.words query := by
  refine SplitState.loop_eq SplitState.initial query start ⟨rfl, rfl, ?_, ?_⟩ ?_
  · intro _ hquote
    cases hquote
  · intro _ _ hlast
    cases hlast
  · intro _ hquote
    cases hquote

end Sentry.TokenizeSearch
