import Sentry.Library.DroppedEnds
import Sentry.TokenizeSearch.Words

/-!
# Where words end

The words of a text that begins with a text in which no word ends (`words_unbroken_append`), and
what the words of a query are: they neither begin nor end with white space, and no word ends in them
(`isWord_of_mem_words`). White space around a query does not matter (`words_trim`).
-/

namespace Sentry.TokenizeSearch

open Library List Option

theorem exists_trim (text : Str) : ∃ before after : Str, before.all isSpace ∧ after.all isSpace ∧
    text = before ++ trim text ++ after := by
  refine ⟨text.takeWhile isSpace, (text.dropWhile isSpace).rtakeWhile isSpace, ?_, ?_, ?_⟩
  · exact List.all_eq_true.mpr fun char hchar ↦ mem_takeWhile_imp hchar
  · exact List.all_eq_true.mpr fun char hchar ↦ mem_rtakeWhile_imp hchar
  · unfold trim
    rw [append_assoc, rdropWhile_append_rtakeWhile, takeWhile_append_dropWhile]

theorem trim_trim (text : Str) : trim (trim text) = trim text :=
  trim_eq_self (fun _ ↦ not_head_dropWhile_rdropWhile) fun _ ↦ not_getLast_rdropWhile

variable {text : Str}

theorem trim_append (hne : text ≠ []) (htext : trim text = text) (rest : Str) :
    trim (text ++ rest) = text ++ rest.rdropWhile isSpace := by
  have hdrop (rest : Str) : (text ++ rest).dropWhile isSpace = text ++ rest := by
    cases text with
    | nil => exact absurd rfl hne
    | cons char text =>
      have hchar : isSpace char = false := by
        refine not_head_dropWhile_rdropWhile (?_ : char ∈ (trim (char :: text)).head?)
        rw [htext]
        rfl
      exact dropWhile_cons_of_neg (by simp [hchar])
  have hself : text.rdropWhile isSpace = text := by
    have hnil := hdrop []
    rw [append_nil] at hnil
    unfold trim at htext
    rwa [hnil] at htext
  unfold trim
  rw [hdrop]
  by_cases hrest : rest.rdropWhile isSpace = []
  · rw [hrest, append_nil, rdropWhile_append_of_all _ (rdropWhile_eq_nil_iff.mp hrest), hself]
  · exact rdropWhile_append_of_ne_nil text hrest

namespace OpenWord

variable (word : OpenWord)

def pushAll (word : OpenWord) (text : Str) : OpenWord := text.foldl push word

def unbroken : OpenWord → Str → Bool
  | _, [] => true
  | word, char :: rest => !(isSpace char && word.closed) && unbroken (word.push char) rest

@[simp] theorem pushAll_cons (char : CodeUnit) (rest : Str) :
    word.pushAll (char :: rest) = (word.push char).pushAll rest := rfl

theorem pushAll_append (text rest : Str) :
    word.pushAll (text ++ rest) = (word.pushAll text).pushAll rest :=
  foldl_append

@[simp] theorem text_pushAll (text : Str) : (word.pushAll text).text = word.text ++ text := by
  induction text generalizing word with
  | nil => exact (append_nil _).symm
  | cons char rest ih =>
    rw [pushAll_cons, ih, push, append_assoc]
    rfl

@[simp] theorem text_pushAll_start (text : Str) : (start.pushAll text).text = text :=
  text_pushAll start text

theorem unbroken_append (text rest : Str) : word.unbroken (text ++ rest) =
    (word.unbroken text && (word.pushAll text).unbroken rest) := by
  induction text generalizing word with
  | nil => rfl
  | cons char text ih =>
    rw [cons_append, unbroken, unbroken, ih, Bool.and_assoc]
    rfl

theorem unbroken_of_forall (h : ∀ char ∈ text, isSpace char = false) :
    word.unbroken text = true := by
  induction text generalizing word with
  | nil => rfl
  | cons char rest ih =>
    rw [unbroken, h char mem_cons_self, ih _ fun other hother ↦ h other (mem_cons_of_mem _ hother)]
    rfl

variable {word}

theorem words_unbroken_append (h : word.unbroken text = true) (rest : Str) :
    word.words (text ++ rest) = (word.pushAll text).words rest := by
  induction text generalizing word with
  | nil => rfl
  | cons char text ih =>
    rw [unbroken, Bool.and_eq_true, Bool.not_eq_true', Bool.eq_false_iff] at h
    rw [cons_append, words_of_not_closed _ h.1, ih h.2]
    rfl

def prepend (word : OpenWord) (text : Str) : OpenWord := ⟨text ++ word.text, word.quote⟩

theorem push_prepend (htext : text.getLast? ≠ some backslash) (char : CodeUnit) :
    (word.prepend text).push char = (word.push char).prepend text := by
  have hquote : (word.prepend text).quoteAfter char = word.quoteAfter char := by
    have hlast : (text ++ word.text).getLast? = some backslash ↔
        word.text.getLast? = some backslash := by
      rw [getLast?_append]
      cases word.text.getLast? with
      | none => simpa using htext
      | some last => rfl
    unfold quoteAfter prepend
    simp only [ne_eq, hlast]
  unfold push
  rw [hquote]
  exact congrArg (OpenWord.mk · _) (append_assoc _ _ _)

theorem closed_iff (word : OpenWord) : word.closed = true ↔
    word.quote = none ∧ ∃ last ∈ lastWordChar word.text, last ≠ colon := by
  unfold closed
  cases lastWordChar word.text <;> simp

theorem closed_prepend (text : Str) (h : word.closed = true) :
    (word.prepend text).closed = true := by
  obtain ⟨hquote, last, hlast, hcolon⟩ := (closed_iff word).mp h
  refine (closed_iff _).mpr ⟨hquote, last, ?_, hcolon⟩
  show last ∈ lastWordChar (text ++ word.text)
  rw [lastWordChar_append, mem_def.mp hlast]
  rfl

variable {blank : Str}

theorem closed_prepend_blank (hblank : blank.all isSpace) (word : OpenWord) :
    (word.prepend blank).closed = word.closed := by
  unfold closed prepend
  rw [lastWordChar_append, (lastWordChar_eq_none_iff blank).mpr hblank, or_none]

theorem getLast?_ne_backslash_of_blank (hblank : blank.all isSpace) :
    blank.getLast? ≠ some backslash := by
  intro hlast
  have hspace := List.all_eq_true.mp hblank _ (mem_of_getLast? hlast)
  revert hspace
  decide

theorem unbroken_of_prepend {before : Str} (hbefore : before.getLast? ≠ some backslash)
    (h : (word.prepend before).unbroken text = true) : word.unbroken text = true := by
  induction text generalizing word with
  | nil => rfl
  | cons char rest ih =>
    rw [unbroken, push_prepend hbefore, Bool.and_eq_true] at h
    rw [unbroken, ih h.2, Bool.and_true, Bool.not_eq_true', Bool.eq_false_iff]
    intro hand
    obtain ⟨hchar, hclosed⟩ := Bool.and_eq_true _ _ ▸ hand
    simp [hchar, closed_prepend before hclosed] at h

theorem words_prepend_blank (hblank : blank.all isSpace) (word : OpenWord)
    (text : Str) : (word.prepend blank).words text = word.words text := by
  have htrim (word : OpenWord) : trim (word.prepend blank).text = trim word.text :=
    trim_blank_append hblank word.text
  induction text generalizing word with
  | nil => rw [words, words, htrim]
  | cons char rest ih =>
    rw [words, words, closed_prepend_blank hblank, htrim,
      push_prepend (getLast?_ne_backslash_of_blank hblank), ih]

theorem words_space_cons {char : CodeUnit} (hchar : isSpace char = true) (rest : Str) :
    start.words (char :: rest) = start.words rest := by
  rw [words_of_not_closed rest (by simp [start, closed])]
  have hquote : start.quoteAfter char = none :=
    quoteAfter_of_not_quote (not_quote_of_isSpace hchar) fun _ hquote ↦ by cases hquote
  have hpush : start.push char = start.prepend [char] := by
    rw [push, hquote]
    rfl
  rw [hpush]
  exact words_prepend_blank (by simpa using hchar) start rest

theorem words_blank_append (hblank : blank.all isSpace) (rest : Str) :
    start.words (blank ++ rest) = start.words rest := by
  induction blank with
  | nil => rfl
  | cons char blank ih =>
    rw [all_cons, Bool.and_eq_true] at hblank
    rw [cons_append, words_space_cons hblank.1, ih hblank.2]

theorem words_concat {char : CodeUnit} (hchar : isSpace char = true) (word : OpenWord)
    (text : Str) : word.words (text ++ [char]) = word.words text := by
  induction text generalizing word with
  | nil =>
    by_cases hclosed : (isSpace char && word.closed) = true
    · have hne : trim word.text ≠ [] := by
        obtain ⟨-, last, hlast, -⟩ := (closed_iff word).mp (Bool.and_eq_true _ _ ▸ hclosed).2
        rw [← lastWordChar_ne_none_iff, mem_def.mp hlast]
        exact some_ne_none last
      rw [nil_append, words_of_closed _ hclosed, words, words, if_neg hne]
      rfl
    · rw [nil_append, words_of_not_closed _ hclosed, words, words, push, trim_concat _ hchar]
  | cons other rest ih =>
    rw [cons_append, words, words, ih, ih]

theorem words_append_blank (hblank : blank.all isSpace) (word : OpenWord)
    (text : Str) : word.words (text ++ blank) = word.words text := by
  induction blank generalizing text with
  | nil => rw [append_nil]
  | cons char blank ih =>
    rw [all_cons, Bool.and_eq_true] at hblank
    rw [append_cons, ih hblank.2, words_concat hblank.1]

theorem words_trim (text : Str) : start.words (trim text) = start.words text := by
  obtain ⟨before, after, hbefore, hafter, htext⟩ := exists_trim text
  conv_rhs => rw [htext, append_assoc, words_blank_append hbefore, words_append_blank hafter]

theorem exists_first_word (hword : trim word.text ≠ []) (text : Str) :
    ∃ before after, text = before ++ after ∧ word.unbroken before = true ∧
      word.words text = trim (word.text ++ before) :: start.words after ∧
      (after = [] ∨ (∃ char ∈ after.head?, isSpace char) ∧ (word.pushAll before).closed) := by
  induction text generalizing word with
  | nil =>
    refine ⟨[], [], rfl, rfl, ?_, Or.inl rfl⟩
    rw [words, if_neg hword, append_nil]
    rfl
  | cons char rest ih =>
    by_cases hclosed : (isSpace char && word.closed) = true
    · obtain ⟨hchar, hend⟩ := Bool.and_eq_true _ _ ▸ hclosed
      refine ⟨[], char :: rest, rfl, rfl, ?_, Or.inr ⟨⟨char, rfl, hchar⟩, hend⟩⟩
      rw [words_of_closed _ hclosed, append_nil, words_space_cons hchar]
    · have hpush : trim (word.push char).text ≠ [] := by
        rw [← lastWordChar_ne_none_iff] at hword ⊢
        show lastWordChar (word.text ++ [char]) ≠ none
        rw [lastWordChar_concat]
        split_ifs
        · exact hword
        · exact some_ne_none char
      obtain ⟨before, after, hrest, hbefore, hwords, hafter⟩ := ih hpush
      refine ⟨char :: before, after, congrArg (char :: ·) hrest, ?_, ?_, hafter⟩
      · rw [unbroken, hbefore, Bool.and_true, Bool.not_eq_true', Bool.eq_false_iff]
        exact hclosed
      · rw [words_of_not_closed _ hclosed, hwords, push, append_assoc]
        rfl

theorem quoteAfter_kind {char : CodeUnit}
    (h : ∀ quote ∈ word.quote, quote = singleQuote ∨ quote = doubleQuote) :
    ∀ quote ∈ word.quoteAfter char, quote = singleQuote ∨ quote = doubleQuote := by
  intro quote hquote
  unfold quoteAfter at hquote
  cases hbefore : word.quote with
  | none =>
    rw [hbefore] at hquote
    by_cases hchar : char = singleQuote ∨ char = doubleQuote
    · rw [if_pos hchar] at hquote
      rwa [← Option.some.inj hquote]
    · rw [if_neg hchar] at hquote
      cases hquote
  | some other =>
    rw [hbefore] at hquote
    dsimp only at hquote
    refine h quote ?_
    rw [hbefore]
    by_cases hleft : char = other ∧ word.text.getLast? ≠ some backslash
    · rw [if_pos hleft] at hquote
      cases hquote
    · rwa [if_neg hleft] at hquote

theorem quote_pushAll (h : ∀ quote ∈ word.quote, quote = singleQuote ∨ quote = doubleQuote)
    (text : Str) :
    ∀ quote ∈ (word.pushAll text).quote, quote = singleQuote ∨ quote = doubleQuote := by
  induction text generalizing word with
  | nil => exact h
  | cons char rest ih => exact ih (quoteAfter_kind h)

theorem quote_pushAll_of_forall
    (h : ∀ quote ∈ word.quote, quote = singleQuote ∨ quote = doubleQuote)
    (htext : ∀ char ∈ text, ¬ (char = singleQuote ∨ char = doubleQuote)) :
    (word.pushAll text).quote = word.quote := by
  induction text generalizing word with
  | nil => rfl
  | cons char rest ih =>
    rw [pushAll_cons, ih (quoteAfter_kind h) fun other hother ↦
      htext other (mem_cons_of_mem _ hother)]
    exact quoteAfter_of_not_quote (htext char mem_cons_self) h

theorem start_quote : ∀ quote ∈ start.quote, quote = singleQuote ∨ quote = doubleQuote :=
  fun _ hquote ↦ by cases hquote

theorem pushAll_start_eq (htext : ∀ char ∈ text, ¬ (char = singleQuote ∨ char = doubleQuote)) :
    start.pushAll text = start.prepend text := by
  have hquote : (start.pushAll text).quote = none := quote_pushAll_of_forall start_quote htext
  show OpenWord.mk (start.pushAll text).text (start.pushAll text).quote = ⟨text ++ [], none⟩
  rw [text_pushAll_start, hquote, append_nil]

theorem closed_pushAll_blank (text : Str) (hblank : blank.all isSpace) :
    (start.pushAll (text ++ blank)).closed = (start.pushAll text).closed := by
  have hquote := quote_pushAll_of_forall (quote_pushAll start_quote text) fun char hchar ↦
    not_quote_of_isSpace (List.all_eq_true.mp hblank char hchar)
  unfold closed
  rw [text_pushAll, text_pushAll, ← append_assoc, lastWordChar_append,
    (lastWordChar_eq_none_iff blank).mpr hblank, none_or, pushAll_append, hquote]

end OpenWord

/-- What the words of a query are. -/
structure IsWord (word : Str) : Prop where
  ne_nil : word ≠ []
  trimmed : trim word = word
  unbroken : OpenWord.start.unbroken word = true

namespace OpenWord

theorem isWord_trim (hne : trim text ≠ []) (h : start.unbroken text = true) :
    IsWord (trim text) := by
  obtain ⟨before, after, hbefore, hafter, htext⟩ := exists_trim text
  have hstart : start.pushAll before = start.prepend before := pushAll_start_eq fun char hchar ↦
    not_quote_of_isSpace (List.all_eq_true.mp hbefore char hchar)
  rw [htext, append_assoc, unbroken_append, hstart, Bool.and_eq_true] at h
  have hrest := unbroken_of_prepend (getLast?_ne_backslash_of_blank hbefore) h.2
  rw [unbroken_append, Bool.and_eq_true] at hrest
  exact ⟨hne, trim_trim text, hrest.1⟩

theorem isWord_of_mem_words {read text : Str} (hread : start.unbroken read = true) {found : Str}
    (h : found ∈ (start.pushAll read).words text) : IsWord found := by
  induction text generalizing read with
  | nil =>
    rw [words, text_pushAll_start] at h
    split_ifs at h with hnil
    · cases h
    · rw [mem_singleton.mp h]
      exact isWord_trim hnil hread
  | cons char rest ih =>
    by_cases hclosed : (isSpace char && (start.pushAll read).closed) = true
    · rw [words_of_closed _ hclosed, text_pushAll_start] at h
      rcases mem_cons.mp h with heq | hmem
      · obtain ⟨-, last, hlast, -⟩ := (closed_iff _).mp (Bool.and_eq_true _ _ ▸ hclosed).2
        rw [text_pushAll_start] at hlast
        rw [heq]
        refine isWord_trim ?_ hread
        rw [← lastWordChar_ne_none_iff, mem_def.mp hlast]
        exact some_ne_none last
      · exact @ih [] rfl hmem
    · rw [words_of_not_closed _ hclosed] at h
      refine @ih (read ++ [char]) ?_ ?_
      · rw [unbroken_append, hread, Bool.true_and, unbroken, unbroken, Bool.and_true,
          Bool.not_eq_true', Bool.eq_false_iff]
        exact hclosed
      · rw [pushAll_append]
        exact h

variable {text : Str}

theorem words_of_isWord (h : IsWord text) : start.words text = [text] := by
  have hwords := words_unbroken_append h.unbroken []
  rw [append_nil, words, text_pushAll_start, h.trimmed, if_neg h.ne_nil] at hwords
  exact hwords

theorem words_append_space (h : IsWord text) (hclosed : (start.pushAll text).closed = true)
    (rest : Str) : start.words (text ++ space :: rest) = text :: start.words rest := by
  rw [words_unbroken_append h.unbroken, words_of_closed rest (by rw [hclosed]; rfl),
    text_pushAll_start, h.trimmed]

theorem exists_words_append (h : IsWord text) (rest : Str) :
    ∃ before after, rest = before ++ after ∧ start.unbroken (text ++ before) = true ∧
      start.words (text ++ rest) = (text ++ before.rdropWhile isSpace) :: start.words after ∧
      (after = [] ∨
        (∃ char ∈ after.head?, isSpace char) ∧ (start.pushAll (text ++ before)).closed) := by
  have hne : trim (start.pushAll text).text ≠ [] := by
    rw [text_pushAll_start, h.trimmed]
    exact h.ne_nil
  obtain ⟨before, after, hrest, hbefore, hwords, hafter⟩ := exists_first_word hne rest
  refine ⟨before, after, hrest, ?_, ?_, ?_⟩
  · rw [unbroken_append, h.unbroken, hbefore]
    rfl
  · rw [words_unbroken_append h.unbroken, hwords, text_pushAll_start,
      trim_append h.ne_nil h.trimmed]
  · rwa [pushAll_append]

theorem exists_words_of_not_closed (h : IsWord text)
    (hclosed : (start.pushAll text).closed ≠ true) {rest : Str} (hrest : trim rest ≠ []) :
    ∃ more others, start.words (text ++ space :: rest) = (text ++ space :: more) :: others := by
  obtain ⟨before, after, happend, -, hwords, hafter⟩ := exists_words_append h (space :: rest)
  cases before with
  | nil =>
    rcases hafter with hnil | ⟨-, hclosed'⟩
    · rw [hnil] at happend
      cases happend
    · rw [append_nil] at hclosed'
      exact absurd hclosed' hclosed
  | cons char before =>
    rw [cons_append] at happend
    obtain ⟨hchar, happend⟩ := List.cons.inj happend
    have hbefore : before.rdropWhile isSpace ≠ [] := by
      intro hnil
      have hblank : before.all isSpace :=
        List.all_eq_true.mpr (rdropWhile_eq_nil_iff.mp hnil)
      rcases hafter with hnil | ⟨-, hclosed'⟩
      · rw [hnil, append_nil] at happend
        rw [happend] at hrest
        exact hrest ((trim_eq_nil_iff before).mpr hblank)
      · rw [closed_pushAll_blank text (by rw [← hchar, all_cons, hblank]; rfl)] at hclosed'
        exact hclosed hclosed'
    have hmore : (space :: before).rdropWhile isSpace = space :: before.rdropWhile isSpace :=
      rdropWhile_append_of_ne_nil [space] hbefore
    refine ⟨before.rdropWhile isSpace, start.words after, ?_⟩
    rw [hwords, ← hchar, hmore]

end OpenWord

end Sentry.TokenizeSearch
