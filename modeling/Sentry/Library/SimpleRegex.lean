import Sentry.Library.Repetition
import Mathlib.Data.List.TakeWhile

/-!
# Simple regular expressions

The regular expressions of Python without groups, alternatives and classes. A brace that does not
begin a repetition stands for itself, and a repetition needs a character before it that is not
repeated already. A match of literals is that of a word of theirs (`matchFrom_literals`), which is
at least as long as the least one.
-/

namespace Sentry.Library.Regex

open Repetition List

/-- A character of a pattern, or one after a backslash. -/
inductive Token
  | bare (c : Char)
  | escaped (c : Char)
deriving DecidableEq

def tokens : List Char → List Token
  | [] => []
  | [c] => [.bare c]
  | c :: d :: rest =>
    if c = '\\' then .escaped d :: tokens rest else .bare c :: tokens (d :: rest)

/-- `re.escape` puts a backslash before these. -/
def specialChars : List Char :=
  ['(', ')', '[', ']', '\x7b', '\x7d', '?', '*', '+', '-', '|', '^', '$', '\\', '.', '&', '~', '#',
    ' ', '\t', '\n', '\r', '\x0b', '\x0c']

/-- `re.escape` of a character. -/
def escape (c : Char) : List Char := if c ∈ specialChars then ['\\', c] else [c]

/-- What an item takes. -/
inductive Atom
  | any
  | literal (c : Char)
deriving DecidableEq

def Atom.takes : Atom → Char → Bool
  | .any, c => c ≠ '\n'
  | .literal d, c => c = d

/-- An anchor, or characters that are repeated within bounds. -/
inductive Item
  | start
  | finish
  | repeated (atom : Atom) (least : ℕ) (most : Option ℕ)
deriving DecidableEq

def maxRepeat : ℕ := 4294967295

/-- The characters that are operators, of which only the dot is an atom. -/
def operators : List Char := ['(', ')', '[', '?', '*', '+', '|', '^', '$', '\\', '.']

def atom : Token → Option Atom
  | .bare c => if c = '.' then some .any else if c ∈ operators then none else some (.literal c)
  | .escaped c => if c ∈ specialChars then some (.literal c) else none

def readDigits : List Token → List Char × List Token
  | .bare c :: rest =>
    if c.isDigit then (c :: (readDigits rest).1, (readDigits rest).2) else ([], .bare c :: rest)
  | rest => ([], rest)

def bound (digits : List Char) : Option ℕ :=
  if digits = [] then none
  else some (digits.foldl (fun value digit ↦ value * 10 + (digit.toNat - '0'.toNat)) 0)

def readBounds (rest : List Token) : Option ((Option ℕ × Option ℕ) × List Token) :=
  match readDigits rest with
  | (least, .bare ',' :: rest) =>
    match readDigits rest with
    | (most, .bare '\x7d' :: rest) => some ((bound least, bound most), rest)
    | _ => none
  | (least, .bare '\x7d' :: rest) =>
    if least = [] then none else some ((bound least, bound least), rest)
  | _ => none

def readRepeat : List Token → Option ((Option ℕ × Option ℕ) × List Token)
  | .bare '*' :: rest => some ((none, none), rest)
  | .bare '\x7b' :: rest => readBounds rest
  | _ => none

def validBounds (least most : Option ℕ) : Bool :=
  least.all (· < maxRepeat) ∧ most.all fun most ↦ most < maxRepeat ∧ least.getD 0 ≤ most

def readAtom (token : Token) (rest : List Token) : Option (Item × List Token) :=
  (atom token).bind fun atom ↦
    match readRepeat rest with
    | none => some (.repeated atom 1 (some 1), rest)
    | some ((least, most), rest) =>
      if validBounds least most then some (.repeated atom (least.getD 0) most, rest) else none

def readItem : List Token → Option (Item × List Token)
  | [] => none
  | token :: rest =>
    if token = .bare '^' then some (.start, rest)
    else if token = .bare '$' then some (.finish, rest)
    else if (readRepeat (token :: rest)).isSome then none
    else readAtom token rest

/-- `re.compile`; `none` if it raises. -/
def parse (pattern : List Char) : Option (List Item) :=
  match many readItem (tokens pattern) with
  | (items, []) => some items
  | (_, _ :: _) => none

theorem readDigits_eq_append (list : List Token) :
    ∃ digits, list = digits ++ (readDigits list).2 := by
  fun_induction readDigits list with
  | case1 c rest hdigit ih =>
    obtain ⟨digits, hdigits⟩ := ih
    exact ⟨.bare c :: digits, congrArg (Token.bare c :: ·) hdigits⟩
  | case2 | case3 => exact ⟨[], rfl⟩

theorem readBounds_eq_append {list rest : List Token} {bounds : Option ℕ × Option ℕ}
    (h : readBounds list = some (bounds, rest)) :
    ∃ braces, list = braces ++ rest ∧ .bare '\x7d' ∈ braces := by
  obtain ⟨digits, hdigits⟩ := readDigits_eq_append list
  rw [readBounds] at h
  split at h
  next least left hleast =>
    obtain ⟨others, hothers⟩ := readDigits_eq_append left
    split at h
    next most after hmost =>
      obtain ⟨-, rfl⟩ := Prod.mk.inj (Option.some.inj h)
      refine ⟨digits ++ .bare ',' :: others ++ [.bare '\x7d'], ?_, by simp⟩
      rw [hleast] at hdigits
      rw [hmost] at hothers
      rw [hdigits]
      nth_rewrite 1 [hothers]
      simp
    next => exact absurd h.symm (Option.some_ne_none _)
  next least left hleast =>
    split at h
    next => exact absurd h.symm (Option.some_ne_none _)
    next =>
      obtain ⟨-, rfl⟩ := Prod.mk.inj (Option.some.inj h)
      refine ⟨digits ++ [.bare '\x7d'], ?_, by simp⟩
      rw [hleast] at hdigits
      rw [hdigits]
      simp
  next => exact absurd h.symm (Option.some_ne_none _)

theorem length_lt_of_readRepeat {list rest : List Token} {bounds : Option ℕ × Option ℕ}
    (h : readRepeat list = some (bounds, rest)) : rest.length < list.length := by
  unfold readRepeat at h
  split at h
  next left =>
    obtain ⟨-, rfl⟩ := Prod.mk.inj (Option.some.inj h)
    exact Nat.lt_succ_self _
  next left =>
    obtain ⟨braces, rfl, -⟩ := readBounds_eq_append h
    rw [length_cons, length_append]
    omega
  next => exact absurd h.symm (Option.some_ne_none _)

theorem shortens_readItem : Shortens readItem := by
  intro list item rest h
  cases list with
  | nil => exact absurd h.symm (Option.some_ne_none _)
  | cons token list =>
    have hlt : list.length < (token :: list).length := Nat.lt_succ_self _
    rw [readItem] at h
    split at h
    next => exact (Prod.mk.inj (Option.some.inj h)).2 ▸ hlt
    next =>
      split at h
      next => exact (Prod.mk.inj (Option.some.inj h)).2 ▸ hlt
      next =>
        split at h
        next => exact absurd h.symm (Option.some_ne_none _)
        next =>
          obtain ⟨atom, -, hatom⟩ := Option.bind_eq_some_iff.mp h
          split at hatom
          next => exact (Prod.mk.inj (Option.some.inj hatom)).2 ▸ hlt
          next least most left hrepeat =>
            split at hatom
            next =>
              obtain ⟨-, rfl⟩ := Prod.mk.inj (Option.some.inj hatom)
              exact (length_lt_of_readRepeat hrepeat).trans hlt
            next => exact absurd hatom.symm (Option.some_ne_none _)

def matchFrom : List Item → Bool → List Char → Bool
  | [], _, _ => true
  | .start :: items, atStart, text => atStart && matchFrom items atStart text
  | .finish :: items, atStart, text =>
    (text = [] ∨ text = ['\n']) && matchFrom items atStart text
  | .repeated atom least most :: items, atStart, text =>
    (List.range (text.length + 1)).any fun count ↦
      least ≤ count ∧ (most.all (count ≤ ·)) ∧ (text.take count).all atom.takes ∧
        matchFrom items (atStart && count = 0) (text.drop count)

/-- `re.match`; `none` if the pattern does not compile. -/
def reMatch (pattern text : List Char) : Option Bool :=
  (parse pattern).map fun items ↦ matchFrom items true text

variable {items : List Item}

theorem matchFrom_repeated {atom : Atom} {least : ℕ} {most : Option ℕ}
    {atStart : Bool} {text : List Char} :
    matchFrom (.repeated atom least most :: items) atStart text ↔
      ∃ taken rest, text = taken ++ rest ∧ least ≤ taken.length ∧
        (∀ bound ∈ most, taken.length ≤ bound) ∧ (∀ c ∈ taken, atom.takes c) ∧
        matchFrom items (atStart && taken.length = 0) rest := by
  rw [matchFrom, any_eq_true]
  constructor
  · rintro ⟨count, hcount, hmatch⟩
    simp only [decide_eq_true_eq, all_eq_true, Option.all_eq_true] at hmatch
    obtain ⟨hleast, hmost, htakes, hrest⟩ := hmatch
    have hlength : (text.take count).length = count :=
      length_take_of_le (Nat.lt_succ_iff.mp (mem_range.mp hcount))
    refine ⟨text.take count, text.drop count, (take_append_drop count text).symm, ?_, ?_,
      htakes, ?_⟩
    · rwa [hlength]
    · rw [hlength]
      exact fun bound hbound ↦ hmost bound hbound
    · rwa [hlength]
  · rintro ⟨taken, rest, rfl, hleast, hmost, htakes, hrest⟩
    refine ⟨taken.length, mem_range.mpr ?_, ?_⟩
    · rw [length_append]
      omega
    · simp only [decide_eq_true_eq, all_eq_true, Option.all_eq_true, take_left', drop_left']
      exact ⟨hleast, fun bound hbound ↦ hmost bound hbound, htakes, hrest⟩

theorem matchFrom_eq_of_not_mem (h : .start ∉ items) (atStart atStart' : Bool)
    (text : List Char) : matchFrom items atStart text = matchFrom items atStart' text := by
  induction items generalizing atStart atStart' text with
  | nil => rfl
  | cons item items ih =>
    have hitems := ih (not_mem_of_not_mem_cons h)
    cases item with
    | start => exact absurd mem_cons_self h
    | finish => rw [matchFrom, matchFrom, hitems atStart atStart']
    | repeated atom least most =>
      exact any_congr rfl fun count ↦ by rw [hitems]

/-- A character that is repeated. -/
structure Literal where
  char : Char
  least : ℕ
  most : Option ℕ

def Literal.item (literal : Literal) : Item :=
  .repeated (.literal literal.char) literal.least literal.most

def IsWord : List Literal → List Char → Prop
  | [], word => word = []
  | literal :: literals, word => ∃ count rest, literal.least ≤ count ∧
      (∀ bound ∈ literal.most, count ≤ bound) ∧
      word = List.replicate count literal.char ++ rest ∧ IsWord literals rest

def leastWord (literals : List Literal) : List Char :=
  literals.flatMap fun literal ↦ List.replicate literal.least literal.char

variable {literals : List Literal}

theorem isWord_leastWord (h : ∀ literal ∈ literals, ∀ bound ∈ literal.most, literal.least ≤ bound) :
    IsWord literals (leastWord literals) := by
  induction literals with
  | nil => rfl
  | cons literal literals ih =>
    exact ⟨literal.least, leastWord literals, le_rfl, h literal mem_cons_self, rfl,
      ih fun other hother ↦ h other (mem_cons_of_mem _ hother)⟩

theorem length_leastWord_le {word : List Char}
    (h : IsWord literals word) : (leastWord literals).length ≤ word.length := by
  induction literals generalizing word with
  | nil => exact Nat.zero_le _
  | cons literal literals ih =>
    obtain ⟨count, rest, hleast, -, rfl, hrest⟩ := h
    have hlength := ih hrest
    rw [leastWord, flatMap_cons, length_append, length_append, length_replicate, length_replicate]
    rw [leastWord] at hlength
    omega

theorem mem_of_mem_leastWord {word : List Char}
    (h : IsWord literals word) {c : Char} (hc : c ∈ leastWord literals) : c ∈ word := by
  induction literals generalizing word with
  | nil => exact absurd hc not_mem_nil
  | cons literal literals ih =>
    obtain ⟨count, rest, hleast, -, rfl, hrest⟩ := h
    rcases mem_append.mp hc with hhead | htail
    · obtain ⟨hne, rfl⟩ := mem_replicate.mp hhead
      exact mem_append_left _ (mem_replicate.mpr ⟨by omega, rfl⟩)
    · exact mem_append_right _ (ih hrest htail)

theorem matchFrom_literals {atStart : Bool} {text : List Char} :
    matchFrom (literals.map Literal.item ++ items) atStart text ↔
      ∃ word rest, text = word ++ rest ∧ IsWord literals word ∧
        matchFrom items (atStart && word.length = 0) rest := by
  induction literals generalizing atStart text with
  | nil =>
    constructor
    · intro h
      exact ⟨[], text, rfl, rfl, by simpa using h⟩
    · rintro ⟨word, rest, rfl, rfl, h⟩
      simpa using h
  | cons literal literals ih =>
    rw [map_cons, cons_append, Literal.item, matchFrom_repeated]
    constructor
    · rintro ⟨taken, rest, rfl, hleast, hmost, htakes, hrest⟩
      obtain ⟨word, left, rfl, hword, hleft⟩ := ih.mp hrest
      have htaken : taken = List.replicate taken.length literal.char :=
        eq_replicate_of_mem fun c hc ↦ by simpa [Atom.takes] using htakes c hc
      refine ⟨taken ++ word, left, (append_assoc _ _ _).symm,
        ⟨taken.length, word, hleast, hmost, congrArg (· ++ word) htaken, hword⟩, ?_⟩
      have hlengths : (taken ++ word).length = 0 ↔ taken.length = 0 ∧ word.length = 0 := by
        rw [length_append]
        omega
      simpa [hlengths, Bool.and_assoc] using hleft
    · rintro ⟨_, left, rfl, ⟨count, word, hleast, hmost, rfl, hword⟩, hleft⟩
      refine ⟨List.replicate count literal.char, word ++ left, append_assoc _ _ _, ?_, ?_, ?_,
        ih.mpr ⟨word, left, rfl, hword, ?_⟩⟩
      · rwa [length_replicate]
      · rwa [length_replicate]
      · intro c hc
        rw [(mem_replicate.mp hc).2]
        exact decide_eq_true rfl
      · have hlengths : (List.replicate count literal.char ++ word).length = 0 ↔
            count = 0 ∧ word.length = 0 := by
          rw [length_append, length_replicate]
          omega
        simpa [hlengths, Bool.and_assoc] using hleft

end Sentry.Library.Regex
