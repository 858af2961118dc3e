import Sentry.Library.Repetition

/-!
# Texts with escaped characters

A text is the list of its code points, surrogates included. `backslashreplace` encodes a text in
ASCII and escapes the other characters, and the codec `unicode-escape` reads escapes, also those
that were in the text before. No text has more double quotes, backslashes and characters outside of
ASCII after it is encoded and decoded than before (`special_decode_encode_le`).
-/

namespace Sentry.Library.UnicodeEscape

open Repetition List Option

def codes (chars : List Char) : List ℕ := chars.map Char.toNat

def doubleQuote : ℕ := '"'.toNat

def backslash : ℕ := '\\'.toNat

def newline : ℕ := '\n'.toNat

def hexDigit (n : ℕ) : ℕ := if n < 10 then '0'.toNat + n else 'a'.toNat + (n - 10)

def hexDigits : ℕ → ℕ → List ℕ
  | 0, _ => []
  | width + 1, n => hexDigits width (n / 16) ++ [hexDigit (n % 16)]

def encodeChar (c : ℕ) : List ℕ :=
  if c < 128 then [c]
  else if c < 16 ^ 2 then backslash :: 'x'.toNat :: hexDigits 2 c
  else if c < 16 ^ 4 then backslash :: 'u'.toNat :: hexDigits 4 c
  else backslash :: 'U'.toNat :: hexDigits 8 c

def encode (text : List ℕ) : List ℕ := text.flatMap encodeChar

/-- The character with a name, if there is one. -/
abbrev Names := List ℕ → Option ℕ

def simpleEscapes : List (ℕ × ℕ) :=
  [(backslash, backslash), ('\''.toNat, '\''.toNat), (doubleQuote, doubleQuote), ('b'.toNat, 8),
    ('f'.toNat, 12), ('t'.toNat, 9), ('n'.toNat, newline), ('r'.toNat, 13), ('v'.toNat, 11),
    ('a'.toNat, 7)]

def hexValue (c : ℕ) : Option ℕ :=
  if '0'.toNat ≤ c ∧ c ≤ '9'.toNat then some (c - '0'.toNat)
  else if 'a'.toNat ≤ c ∧ c ≤ 'f'.toNat then some (c - 'a'.toNat + 10)
  else if 'A'.toNat ≤ c ∧ c ≤ 'F'.toNat then some (c - 'A'.toNat + 10)
  else none

/-- After `\x`, `\u` and `\U`: so many digits, of a code point. -/
def hexEscape (width : ℕ) (text : List ℕ) : Option (List ℕ × List ℕ) :=
  if (text.take width).length = width then
    ((text.take width).mapM hexValue).bind fun values ↦
      let c := values.foldl (fun value digit ↦ value * 16 + digit) 0
      if c ≤ 0x10ffff then some ([c], text.drop width) else none
  else none

def isOctal (c : ℕ) : Bool := '0'.toNat ≤ c ∧ c ≤ '7'.toNat

def octalEscape (digit : ℕ) (text : List ℕ) : List ℕ × List ℕ :=
  let digits := (text.take 2).takeWhile isOctal
  ([(digit :: digits).foldl (fun value digit ↦ value * 8 + (digit - '0'.toNat)) 0],
    text.drop digits.length)

/-- After `\N`: the name of a character in braces. -/
def namedEscape (names : Names) : List ℕ → Option (List ℕ × List ℕ)
  | [] => none
  | c :: text =>
    if c = '\x7b'.toNat then
      match text.dropWhile (· ≠ '\x7d'.toNat) with
      | [] => none
      | _ :: rest => (names (text.takeWhile (· ≠ '\x7d'.toNat))).map fun c ↦ ([c], rest)
    else none

def readEscape (names : Names) : List ℕ → Option (List ℕ × List ℕ)
  | [] => none
  | c :: rest =>
    if c = newline then some ([], rest)
    else
      match simpleEscapes.lookup c with
      | some d => some ([d], rest)
      | none =>
        if isOctal c then some (octalEscape c rest)
        else if c = 'x'.toNat then hexEscape 2 rest
        else if c = 'u'.toNat then hexEscape 4 rest
        else if c = 'U'.toNat then hexEscape 8 rest
        else if c = 'N'.toNat then namedEscape names rest
        else some ([backslash, c], rest)

def readChar (names : Names) : List ℕ → Option (List ℕ × List ℕ)
  | [] => none
  | c :: rest => if c = backslash then readEscape names rest else some ([c], rest)

/-- The text that is decoded, if there is no error before its end. -/
def decode (names : Names) (text : List ℕ) : Option (List ℕ) :=
  match many (readChar names) text with
  | (written, []) => some written.flatten
  | (_, _ :: _) => none

variable {names : Names} {c : ℕ} {text written rest : List ℕ}

theorem hexEscape_eq_some {width : ℕ} (h : hexEscape width text = some (written, rest)) :
    written.length ≤ 1 ∧ rest <:+ text := by
  unfold hexEscape at h
  by_cases hlength : (text.take width).length = width
  · rw [if_pos hlength, bind_eq_some_iff] at h
    obtain ⟨values, -, hvalues⟩ := h
    rw [ite_none_right_eq_some, Option.some.injEq, Prod.mk.injEq] at hvalues
    obtain ⟨-, rfl, rfl⟩ := hvalues
    exact ⟨le_rfl, drop_suffix _ _⟩
  · rw [if_neg hlength] at h
    exact absurd h.symm (some_ne_none _)

theorem namedEscape_eq_some (h : namedEscape names text = some (written, rest)) :
    written.length ≤ 1 ∧ rest <:+ text := by
  cases text with
  | nil => exact absurd h.symm (some_ne_none _)
  | cons c text =>
    rw [namedEscape, ite_none_right_eq_some] at h
    have hsuffix := dropWhile_suffix (l := text) (· ≠ '\x7d'.toNat)
    cases hdrop : text.dropWhile (· ≠ '\x7d'.toNat) with
    | nil =>
      rw [hdrop] at h
      exact absurd h.2.symm (some_ne_none _)
    | cons brace after =>
      rw [hdrop] at h hsuffix
      simp only [map_eq_some_iff, Prod.mk.injEq] at h
      obtain ⟨-, d, -, rfl, rfl⟩ := h
      exact ⟨le_rfl, ((suffix_cons _ _).trans hsuffix).trans (suffix_cons _ _)⟩

theorem readEscape_eq_some (h : readEscape names (c :: text) = some (written, rest)) :
    (written.length ≤ 1 ∧ rest <:+ text) ∨ (written = [backslash, c] ∧ rest = text) := by
  rw [readEscape] at h
  by_cases hnewline : c = newline
  · rw [if_pos hnewline, Option.some.injEq, Prod.mk.injEq] at h
    exact Or.inl ⟨by simp [← h.1], h.2 ▸ suffix_rfl⟩
  rw [if_neg hnewline] at h
  cases hsimple : simpleEscapes.lookup c with
  | some d =>
    rw [hsimple, Option.some.injEq, Prod.mk.injEq] at h
    exact Or.inl ⟨by simp [← h.1], h.2 ▸ suffix_rfl⟩
  | none =>
    rw [hsimple] at h
    by_cases hoctal : isOctal c
    · rw [if_pos hoctal, octalEscape, Option.some.injEq, Prod.mk.injEq] at h
      exact Or.inl ⟨by simp [← h.1], h.2 ▸ drop_suffix _ _⟩
    rw [if_neg hoctal] at h
    by_cases hx : c = 'x'.toNat
    · exact Or.inl (hexEscape_eq_some ((if_pos hx).symm.trans h))
    rw [if_neg hx] at h
    by_cases hu : c = 'u'.toNat
    · exact Or.inl (hexEscape_eq_some ((if_pos hu).symm.trans h))
    rw [if_neg hu] at h
    by_cases hlong : c = 'U'.toNat
    · exact Or.inl (hexEscape_eq_some ((if_pos hlong).symm.trans h))
    rw [if_neg hlong] at h
    by_cases hname : c = 'N'.toNat
    · exact Or.inl (namedEscape_eq_some ((if_pos hname).symm.trans h))
    rw [if_neg hname, Option.some.injEq, Prod.mk.injEq] at h
    exact Or.inr ⟨h.1.symm, h.2.symm⟩

theorem shortens_readChar (names : Names) : Shortens (readChar names) := by
  intro text written rest h
  cases text with
  | nil => exact absurd h.symm (some_ne_none _)
  | cons c text =>
    rw [readChar] at h
    by_cases hc : c = backslash
    · rw [if_pos hc] at h
      cases text with
      | nil => exact absurd h.symm (some_ne_none _)
      | cons d text =>
        rw [length_cons, length_cons]
        rcases readEscape_eq_some h with ⟨-, hsuffix⟩ | ⟨-, rfl⟩
        · have hlength := hsuffix.length_le
          omega
        · omega
    · rw [if_neg hc, Option.some.injEq, Prod.mk.injEq] at h
      rw [← h.2, length_cons]
      exact Nat.lt_succ_self _

def isSpecial (c : ℕ) : Bool := c = doubleQuote ∨ c = backslash ∨ 128 ≤ c

def special (text : List ℕ) : ℕ := text.countP isSpecial

@[simp] theorem special_append (text text' : List ℕ) :
    special (text ++ text') = special text + special text' := countP_append

theorem special_cons (c : ℕ) (text : List ℕ) :
    special (c :: text) = special [c] + special text := special_append [c] text

theorem special_flatten (texts : List (List ℕ)) :
    special texts.flatten = (texts.map special).sum := countP_flatten

theorem special_le_length (text : List ℕ) : special text ≤ text.length := countP_le_length

theorem special_le_of_suffix (h : rest <:+ text) : special rest ≤ special text :=
  h.sublist.countP_le

theorem special_eq_zero (h : ∀ c ∈ text, isSpecial c = false) : special text = 0 :=
  countP_eq_zero.mpr fun c hc ↦ by simp [h c hc]

@[simp] theorem special_doubleQuote : special [doubleQuote] = 1 := rfl

@[simp] theorem special_backslash : special [backslash] = 1 := rfl

theorem isSpecial_hexDigit {n : ℕ} (h : n < 16) : isSpecial (hexDigit n) = false := by
  revert n
  decide

theorem special_hexDigits (width n : ℕ) : special (hexDigits width n) = 0 := by
  induction width generalizing n with
  | zero => rfl
  | succ width ih =>
    rw [hexDigits, special_append, ih, Nat.zero_add]
    exact special_eq_zero fun c hc ↦
      mem_singleton.mp hc ▸ isSpecial_hexDigit (Nat.mod_lt n (by omega))

theorem special_encodeChar (c : ℕ) : special (encodeChar c) = special [c] := by
  unfold encodeChar
  by_cases hascii : c < 128
  · rw [if_pos hascii]
  have hspecial : special [c] = 1 := by
    have hc : isSpecial c = true := by simpa [isSpecial] using Or.inr (Or.inr (not_lt.mp hascii))
    rw [special, countP_singleton, if_pos hc]
  have hescape : ∀ letter width, isSpecial letter = false →
      special (backslash :: letter :: hexDigits width c) = 1 := by
    intro letter width hletter
    rw [special_cons, special_cons letter, special_hexDigits, special_backslash,
      special_eq_zero fun d hd ↦ mem_singleton.mp hd ▸ hletter]
  rw [if_neg hascii, hspecial]
  by_cases htwo : c < 16 ^ 2
  · rw [if_pos htwo]
    exact hescape _ 2 rfl
  rw [if_neg htwo]
  by_cases hfour : c < 16 ^ 4
  · rw [if_pos hfour]
    exact hescape _ 4 rfl
  · rw [if_neg hfour]
    exact hescape _ 8 rfl

theorem special_encode (text : List ℕ) : special (encode text) = special text := by
  induction text with
  | nil => rfl
  | cons c text ih =>
    rw [encode, flatMap_cons, special_append, special_encodeChar, special_cons c text]
    exact congrArg (special [c] + ·) ih

theorem special_readChar_le (h : readChar names text = some (written, rest)) :
    special written + special rest ≤ special text := by
  cases text with
  | nil => exact absurd h.symm (some_ne_none _)
  | cons c text =>
    rw [readChar] at h
    by_cases hc : c = backslash
    · rw [if_pos hc] at h
      cases text with
      | nil => exact absurd h.symm (some_ne_none _)
      | cons d text =>
        rw [hc, special_cons, special_cons d, special_backslash]
        rcases readEscape_eq_some h with ⟨hlength, hsuffix⟩ | ⟨rfl, rfl⟩
        · have hwritten := special_le_length written
          have hrest := special_le_of_suffix hsuffix
          omega
        · rw [special_cons, special_backslash]
          omega
    · rw [if_neg hc, Option.some.injEq, Prod.mk.injEq] at h
      rw [← h.1, ← h.2, special_cons c text]

theorem special_decode_le (h : decode names text = some written) :
    special written ≤ special text := by
  unfold decode at h
  have hsum := sum_cost_add_weight_le (shortens_readChar names)
    (fun _ _ _ ↦ special_readChar_le) text
  rcases hmany : many (readChar names) text with ⟨values, _ | ⟨c, left⟩⟩
  · rw [hmany, Option.some.injEq] at h
    rw [hmany] at hsum
    rw [← h, special_flatten]
    exact hsum
  · rw [hmany] at h
    exact absurd h.symm (some_ne_none _)

theorem special_decode_encode_le (h : decode names (encode text) = some written) :
    special written ≤ special text :=
  (special_decode_le h).trans (special_encode text).le

end Sentry.Library.UnicodeEscape
