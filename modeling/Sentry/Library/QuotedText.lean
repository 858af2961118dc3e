import Sentry.Library.Characters

/-!
# Texts with quoted literals

A text is scanned as code with literals in single or double quotes, in which a backslash escapes. It
is balanced if its literals are closed and neither a backslash nor a separator is outside of them.
Every character permutes the modes of the scan, so that scans which begin apart stay apart
(`apart_scan`), and a text of balanced parts with separators between them is split in one way only
(`eq_of_append_separator`).
-/

namespace Sentry.Library.Quoted

open List

/-- The quotes around a literal. -/
inductive Quote
  | single
  | double
deriving DecidableEq

def Quote.char : Quote → Char
  | single => '\''
  | double => '"'

theorem Quote.char_injective {q q' : Quote} (h : q.char = q'.char) : q = q' := by
  cases q <;> cases q' <;> simp_all [Quote.char]

theorem Quote.char_ne_backslash (q : Quote) : q.char ≠ '\\' := by
  cases q <;> simp [Quote.char]

/-- Where a scan is: in the code, in a literal, or in one after a backslash. -/
inductive Mode
  | code
  | literal (quote : Quote)
  | escaped (quote : Quote)
deriving DecidableEq

/-- The mode after a character. -/
def step (separator : Char) : Mode → Char → Option Mode
  | .code, c =>
    if c = Quote.single.char then some (.literal .single)
    else if c = Quote.double.char then some (.literal .double)
    else if c = '\\' ∨ c = separator then none
    else some .code
  | .literal quote, c =>
    if c = '\\' then some (.escaped quote)
    else if c = quote.char then some .code
    else some (.literal quote)
  | .escaped quote, _ => some (.literal quote)

def scan (separator : Char) : Mode → List Char → Option Mode
  | mode, [] => some mode
  | mode, c :: rest => (step separator mode c).bind (scan separator · rest)

def Balanced (separator : Char) (text : List Char) : Prop :=
  scan separator .code text = some .code

variable {separator : Char} {mode mode' next next' : Mode} {text text' : List Char}

@[simp] theorem scan_nil : scan separator mode [] = some mode := rfl

theorem scan_append :
    scan separator mode (text ++ text') =
      (scan separator mode text).bind (scan separator · text') := by
  induction text generalizing mode with
  | nil => rfl
  | cons c rest ih =>
    rw [cons_append, scan, scan]
    cases step separator mode c with
    | none => rfl
    | some next => exact ih

variable {c : Char}

theorem scan_cons_eq_some :
    scan separator mode (c :: text) = some next ↔
      ∃ mode', step separator mode c = some mode' ∧ scan separator mode' text = some next := by
  rw [scan, Option.bind_eq_some_iff]

theorem balanced_nil : Balanced separator [] := rfl

theorem Balanced.append (h : Balanced separator text) (h' : Balanced separator text') :
    Balanced separator (text ++ text') := by
  show scan separator .code (text ++ text') = some .code
  rw [scan_append, h]
  exact h'

def Plain (separator c : Char) : Prop :=
  c ≠ Quote.single.char ∧ c ≠ Quote.double.char ∧ c ≠ '\\' ∧ c ≠ separator

theorem step_plain (h : Plain separator c) : step separator .code c = some .code := by
  obtain ⟨hsingle, hdouble, hbackslash, hseparator⟩ := h
  rw [step, if_neg hsingle, if_neg hdouble, if_neg (by simp [hbackslash, hseparator])]

theorem balanced_of_plain (h : ∀ c ∈ text, Plain separator c) : Balanced separator text := by
  induction text with
  | nil => exact balanced_nil
  | cons c rest ih =>
    refine scan_cons_eq_some.mpr ⟨.code, step_plain (h c mem_cons_self), ?_⟩
    exact ih fun d hd ↦ h d (mem_cons_of_mem _ hd)

theorem Balanced.cons (hc : Plain separator c) (h : Balanced separator text) :
    Balanced separator (c :: text) :=
  scan_cons_eq_some.mpr ⟨.code, step_plain hc, h⟩

theorem balanced_literal {quote : Quote}
    (h : scan separator (.literal quote) text = some (.literal quote)) :
    Balanced separator (quote.char :: text ++ [quote.char]) := by
  refine scan_cons_eq_some.mpr ⟨.literal quote, ?_, ?_⟩
  · cases quote with
    | single => rfl
    | double => rfl
  · show scan separator (.literal quote) (text ++ [quote.char]) = some .code
    rw [scan_append, h]
    show (step separator (.literal quote) quote.char).bind _ = _
    rw [step, if_neg quote.char_ne_backslash, if_pos rfl]
    rfl

def Apart : Mode → Mode → Prop
  | .code, .literal _ => True
  | .literal _, .code => True
  | .literal quote, .literal quote' => quote ≠ quote'
  | .escaped quote, .escaped quote' => quote ≠ quote'
  | _, _ => False

theorem apart_symm (h : Apart mode mode') : Apart mode' mode := by
  cases mode <;> cases mode' <;> simp_all [Apart, eq_comm]

theorem apart_step_code {quote : Quote} (h : step separator .code c = some next)
    (h' : step separator (.literal quote) c = some next') : Apart next next' := by
  have hbackslash : c ≠ '\\' := by
    rintro rfl
    simp [step, Quote.char] at h
  rw [step, if_neg hbackslash] at h'
  by_cases hquote : c = quote.char
  · rw [if_pos hquote, Option.some.injEq] at h'
    subst hquote h'
    cases quote with
    | single =>
      obtain rfl : next = .literal .single := by simpa [step, Quote.char] using h.symm
      trivial
    | double =>
      obtain rfl : next = .literal .double := by simpa [step, Quote.char] using h.symm
      trivial
  · rw [if_neg hquote, Option.some.injEq] at h'
    subst h'
    rw [step] at h
    by_cases hsingle : c = Quote.single.char
    · rw [if_pos hsingle, Option.some.injEq] at h
      subst h
      exact fun heq ↦ hquote (heq ▸ hsingle)
    · rw [if_neg hsingle] at h
      by_cases hdouble : c = Quote.double.char
      · rw [if_pos hdouble, Option.some.injEq] at h
        subst h
        exact fun heq ↦ hquote (heq ▸ hdouble)
      · rw [if_neg hdouble] at h
        by_cases hstop : c = '\\' ∨ c = separator
        · simp [hstop] at h
        · rw [if_neg hstop, Option.some.injEq] at h
          subst h
          trivial

theorem apart_step_literal {quote quote' : Quote} (hne : quote ≠ quote')
    (h : step separator (.literal quote) c = some next)
    (h' : step separator (.literal quote') c = some next') : Apart next next' := by
  rw [step] at h h'
  by_cases hbackslash : c = '\\'
  · rw [if_pos hbackslash, Option.some.injEq] at h h'
    subst h h'
    exact hne
  · rw [if_neg hbackslash] at h h'
    by_cases hquote : c = quote.char
    · have hother : c ≠ quote'.char := fun heq ↦ hne (Quote.char_injective (hquote.symm.trans heq))
      rw [if_pos hquote, Option.some.injEq] at h
      rw [if_neg hother, Option.some.injEq] at h'
      subst h h'
      trivial
    · rw [if_neg hquote, Option.some.injEq] at h
      by_cases hother : c = quote'.char
      · rw [if_pos hother, Option.some.injEq] at h'
        subst h h'
        trivial
      · rw [if_neg hother, Option.some.injEq] at h'
        subst h h'
        exact hne

theorem apart_step (hapart : Apart mode mode') (h : step separator mode c = some next)
    (h' : step separator mode' c = some next') : Apart next next' := by
  cases mode with
  | code =>
    cases mode' with
    | code | escaped => exact absurd hapart id
    | literal quote => exact apart_step_code h h'
  | literal quote =>
    cases mode' with
    | code => exact apart_symm (apart_step_code h' h)
    | literal quote' => exact apart_step_literal hapart h h'
    | escaped quote' => exact absurd hapart id
  | escaped quote =>
    cases mode' with
    | code | literal => exact absurd hapart id
    | escaped quote' =>
      rw [step, Option.some.injEq] at h h'
      subst h h'
      exact hapart

theorem apart_scan (hapart : Apart mode mode') (h : scan separator mode text = some next)
    (h' : scan separator mode' text = some next') : Apart next next' := by
  induction text generalizing mode mode' with
  | nil =>
    rw [scan_nil, Option.some.injEq] at h h'
    rwa [← h, ← h']
  | cons c rest ih =>
    obtain ⟨middle, hstep, hrest⟩ := scan_cons_eq_some.mp h
    obtain ⟨middle', hstep', hrest'⟩ := scan_cons_eq_some.mp h'
    exact ih (apart_step hapart hstep hstep') hrest hrest'

def IsSeparator (c : Char) : Prop := c ≠ Quote.single.char ∧ c ≠ Quote.double.char ∧ c ≠ '\\'

theorem not_balanced_of_separator (hseparator : IsSeparator separator) {before last : List Char}
    (h : Balanced separator (before ++ separator :: last)) : ¬ Balanced separator last := by
  obtain ⟨hsingle, hdouble, hbackslash⟩ := hseparator
  intro hlast
  obtain ⟨mode, hbefore, hrest⟩ := Option.bind_eq_some_iff.mp (scan_append.symm.trans h)
  obtain ⟨next, hstep, hscan⟩ := scan_cons_eq_some.mp hrest
  have hapart : Apart .code next := by
    cases mode with
    | code => simp [step, hsingle, hdouble] at hstep
    | literal quote =>
      have hquote : separator ≠ quote.char := by
        cases quote with
        | single => exact hsingle
        | double => exact hdouble
      rw [step, if_neg hbackslash, if_neg hquote, Option.some.injEq] at hstep
      subst hstep
      trivial
    | escaped quote =>
      rw [step, Option.some.injEq] at hstep
      subst hstep
      trivial
  exact apart_scan hapart hlast hscan

theorem eq_of_append_separator_of_append (hseparator : IsSeparator separator)
    {middle last last' : List Char} (hlast : Balanced separator last)
    (hlast' : Balanced separator last') (h : separator :: last' = middle ++ separator :: last) :
    middle = [] ∧ last = last' := by
  cases middle with
  | nil => exact ⟨rfl, (List.cons.inj h).2.symm⟩
  | cons c rest =>
    rw [(List.cons.inj h).2] at hlast'
    exact absurd hlast (not_balanced_of_separator hseparator hlast')

theorem eq_of_append_separator (hseparator : IsSeparator separator)
    {first first' last last' : List Char} (hlast : Balanced separator last)
    (hlast' : Balanced separator last')
    (h : first ++ separator :: last = first' ++ separator :: last') :
    first = first' ∧ last = last' := by
  rcases append_eq_append_iff.mp h with ⟨middle, rfl, hmiddle⟩ | ⟨middle, rfl, hmiddle⟩
  · obtain ⟨rfl, heq⟩ := eq_of_append_separator_of_append hseparator hlast' hlast hmiddle
    exact ⟨(append_nil _).symm, heq.symm⟩
  · obtain ⟨rfl, heq⟩ := eq_of_append_separator_of_append hseparator hlast hlast' hmiddle
    exact ⟨append_nil _, heq⟩

end Sentry.Library.Quoted
