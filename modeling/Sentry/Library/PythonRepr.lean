import Sentry.Library.QuotedText
import Mathlib.Tactic.Linarith

/-!
# The texts of Python values

`str` of a value that is built of `None`, numbers, dates, strings, lists and dictionaries. In a
string, the quotes, backslashes and characters that are not printable are escaped. The text of a
value is balanced (`balanced_repr`), and the value is found from it (`repr_inj`). A number stands
for its own text, and so does a date.
-/

namespace Sentry.Library.Python

open Quoted List

/-! ### Values -/

/-- The characters of numbers, such as `12`, `-0.5`, `1e+16`, `inf` and `nan`. -/
def numberChars : List Char :=
  ['0', '1', '2', '3', '4', '5', '6', '7', '8', '9', '.', '+', '-', 'e', 'i', 'n', 'f', 'a']

/-- A number, by its text. -/
structure Number where
  text : List Char
  ne_nil : text ≠ []
  chars : ∀ c ∈ text, c ∈ numberChars

def dateChars : List Char :=
  ['0', '1', '2', '3', '4', '5', '6', '7', '8', '9', ',', ' ', '=', '.', 't', 'z', 'i', 'n', 'f',
    'o', 'd', 'a', 'e', 'm', 'u', 'c']

/-- `datetime.datetime(` -/
def datePrefix : List Char :=
  ['d', 'a', 't', 'e', 't', 'i', 'm', 'e', '.', 'd', 'a', 't', 'e', 't', 'i', 'm', 'e', '(']

/-- A date, by the text of its arguments. -/
structure Date where
  text : List Char
  chars : ∀ c ∈ text, c ∈ dateChars

/-- A value; a dictionary has the order of its items. -/
inductive Value
  | none
  | number (number : Number)
  | date (date : Date)
  | str (text : List Char)
  | list (elements : List Value)
  | dict (items : List (List Char × Value))

/-! ### Strings -/

section Strings

variable (printable : Char → Bool)

def hexDigits : ℕ → ℕ → List Char
  | 0, _ => []
  | width + 1, n => hexDigits width (n / 16) ++ [Nat.digitChar (n % 16)]

def escapeChar (quote c : Char) : List Char :=
  if c = quote ∨ c = '\\' then ['\\', c]
  else if c = '\t' then ['\\', 't']
  else if c = '\n' then ['\\', 'n']
  else if c = '\r' then ['\\', 'r']
  else if printable c then [c]
  else if c.toNat < 16 ^ 2 then '\\' :: 'x' :: hexDigits 2 c.toNat
  else if c.toNat < 16 ^ 4 then '\\' :: 'u' :: hexDigits 4 c.toNat
  else '\\' :: 'U' :: hexDigits 8 c.toNat

def quoteOf (text : List Char) : Quote :=
  if '\'' ∈ text ∧ '"' ∉ text then .double else .single

/-- `repr` of a string. -/
def reprStr (text : List Char) : List Char :=
  (quoteOf text).char :: text.flatMap (escapeChar printable (quoteOf text).char) ++
    [(quoteOf text).char]

end Strings

/-! ### Values -/

section Values

variable (printable : Char → Bool)

mutual

/-- `repr` of a value. -/
def repr : Value → List Char
  | .none => ['N', 'o', 'n', 'e']
  | .number number => number.text
  | .date date => datePrefix ++ date.text ++ [')']
  | .str text => reprStr printable text
  | .list [] => ['[', ']']
  | .list (element :: rest) => '[' :: repr element ++ reprElements rest
  | .dict [] => ['{', '}']
  | .dict (item :: rest) => '{' :: reprItem item ++ reprItems rest

def reprElements : List Value → List Char
  | [] => [']']
  | element :: rest => ',' :: ' ' :: repr element ++ reprElements rest

def reprItems : List (List Char × Value) → List Char
  | [] => ['}']
  | item :: rest => ',' :: ' ' :: reprItem item ++ reprItems rest

def reprItem : List Char × Value → List Char
  | (key, value) => reprStr printable key ++ ':' :: ' ' :: repr value

end

end Values

/-! ### Reading a string -/

def digitValue (c : Char) : ℕ := if c.toNat < 97 then c.toNat - 48 else c.toNat - 87

def hexValue (digits : List Char) : ℕ := digits.foldl (fun value c ↦ value * 16 + digitValue c) 0

def unescape : List Char → Option (Char × List Char)
  | '\\' :: 'x' :: rest => some (Char.ofNat (hexValue (rest.take 2)), rest.drop 2)
  | '\\' :: 'u' :: rest => some (Char.ofNat (hexValue (rest.take 4)), rest.drop 4)
  | '\\' :: 'U' :: rest => some (Char.ofNat (hexValue (rest.take 8)), rest.drop 8)
  | '\\' :: 't' :: rest => some ('\t', rest)
  | '\\' :: 'n' :: rest => some ('\n', rest)
  | '\\' :: 'r' :: rest => some ('\r', rest)
  | '\\' :: c :: rest => some (c, rest)
  | c :: rest => some (c, rest)
  | [] => none

theorem digitValue_digitChar {n : ℕ} (h : n < 16) : digitValue (Nat.digitChar n) = n := by
  revert n
  decide

theorem length_hexDigits (width n : ℕ) : (hexDigits width n).length = width := by
  induction width generalizing n with
  | zero => rfl
  | succ width ih => rw [hexDigits, List.length_append, ih, List.length_singleton]

theorem hexValue_hexDigits (width n : ℕ) : hexValue (hexDigits width n) = n % 16 ^ width := by
  induction width generalizing n with
  | zero => simp [hexDigits, hexValue, Nat.mod_one]
  | succ width ih =>
    have hdigit := digitValue_digitChar (Nat.mod_lt n (by omega : 16 > 0))
    have hrest := ih (n / 16)
    rw [hexValue] at hrest
    rw [hexValue, hexDigits, List.foldl_append, List.foldl_cons, List.foldl_nil, hrest, hdigit,
      pow_succ', Nat.mod_mul]
    omega

variable {c : Char}

theorem unescape_hex {width : ℕ} (hc : c.toNat < 16 ^ width) (rest : List Char) :
    Char.ofNat (hexValue ((hexDigits width c.toNat ++ rest).take width)) = c ∧
      (hexDigits width c.toNat ++ rest).drop width = rest := by
  have hlength := length_hexDigits width c.toNat
  refine ⟨?_, ?_⟩
  · rw [List.take_append_of_le_length hlength.ge, List.take_of_length_le hlength.le,
      hexValue_hexDigits, Nat.mod_eq_of_lt hc, Char.ofNat_toNat]
  · rw [List.drop_append_of_le_length hlength.ge, List.drop_of_length_le hlength.le,
      List.nil_append]

theorem unescape_of_ne (hc : c ≠ '\\') (rest : List Char) :
    unescape (c :: rest) = some (c, rest) := by
  unfold unescape
  split <;> simp_all

variable {printable : Char → Bool}

theorem unescape_escapeChar (quote : Quote) (c : Char) (rest : List Char) :
    unescape (escapeChar printable quote.char c ++ rest) = some (c, rest) := by
  unfold escapeChar
  by_cases hspecial : c = quote.char ∨ c = '\\'
  · rw [if_pos hspecial]
    rcases hspecial with rfl | rfl
    · cases quote with
      | single => rfl
      | double => rfl
    · rfl
  · rw [if_neg hspecial]
    have hbackslash : c ≠ '\\' := fun h ↦ hspecial (Or.inr h)
    by_cases htab : c = '\t'
    · subst htab
      rfl
    · rw [if_neg htab]
      by_cases hnewline : c = '\n'
      · subst hnewline
        rfl
      · rw [if_neg hnewline]
        by_cases hreturn : c = '\r'
        · subst hreturn
          rfl
        · rw [if_neg hreturn]
          by_cases hprintable : printable c = true
          · rw [if_pos hprintable]
            exact unescape_of_ne hbackslash rest
          · rw [if_neg hprintable]
            by_cases hx : c.toNat < 16 ^ 2
            · rw [if_pos hx]
              obtain ⟨htake, hdrop⟩ := unescape_hex hx rest
              simp only [List.cons_append, unescape, htake, hdrop]
            · rw [if_neg hx]
              by_cases hu : c.toNat < 16 ^ 4
              · rw [if_pos hu]
                obtain ⟨htake, hdrop⟩ := unescape_hex hu rest
                simp only [List.cons_append, unescape, htake, hdrop]
              · rw [if_neg hu]
                have hbound : c.toNat < 16 ^ 8 := c.val.toNat_lt
                obtain ⟨htake, hdrop⟩ := unescape_hex hbound rest
                simp only [List.cons_append, unescape, htake, hdrop]

theorem hexDigits_ne {width n : ℕ} (hc : c ∈ hexDigits width n) (quote : Quote) :
    c ≠ '\\' ∧ c ≠ quote.char := by
  have hdigit : ∀ k < 16, Nat.digitChar k ≠ '\\' ∧ Nat.digitChar k ≠ Quote.single.char ∧
      Nat.digitChar k ≠ Quote.double.char := by decide
  induction width generalizing n with
  | zero => simp [hexDigits] at hc
  | succ width ih =>
    rw [hexDigits, List.mem_append, List.mem_singleton] at hc
    rcases hc with hc | rfl
    · exact ih hc
    · obtain ⟨hbackslash, hsingle, hdouble⟩ := hdigit _ (Nat.mod_lt n (by omega))
      cases quote with
      | single => exact ⟨hbackslash, hsingle⟩
      | double => exact ⟨hbackslash, hdouble⟩

theorem escapeChar_cases (printable : Char → Bool) (quote : Quote) (c : Char) :
    escapeChar printable quote.char c = [c] ∧ c ≠ '\\' ∧ c ≠ quote.char ∨
      ∃ d tail, escapeChar printable quote.char c = '\\' :: d :: tail ∧
        ∀ e ∈ tail, e ≠ '\\' ∧ e ≠ quote.char := by
  unfold escapeChar
  split_ifs with hspecial htab hnewline hreturn hprintable hx hu
  · exact Or.inr ⟨c, [], rfl, by simp⟩
  · exact Or.inr ⟨'t', [], rfl, by simp⟩
  · exact Or.inr ⟨'n', [], rfl, by simp⟩
  · exact Or.inr ⟨'r', [], rfl, by simp⟩
  · exact Or.inl ⟨rfl, fun h ↦ hspecial (Or.inr h), fun h ↦ hspecial (Or.inl h)⟩
  · exact Or.inr ⟨'x', _, rfl, fun e he ↦ hexDigits_ne he quote⟩
  · exact Or.inr ⟨'u', _, rfl, fun e he ↦ hexDigits_ne he quote⟩
  · exact Or.inr ⟨'U', _, rfl, fun e he ↦ hexDigits_ne he quote⟩

theorem escapeChar_append_ne (quote : Quote) (c : Char) (rest rest' : List Char) :
    escapeChar printable quote.char c ++ rest ≠ quote.char :: rest' := by
  intro h
  rcases escapeChar_cases printable quote c with
    ⟨heq, -, hne⟩ | ⟨d, tail, heq, -⟩
  · rw [heq] at h
    exact hne (List.cons.inj h).1
  · rw [heq] at h
    exact quote.char_ne_backslash (List.cons.inj h).1.symm

variable {text text' rest rest' : List Char}

theorem flatMap_escapeChar_inj (quote : Quote)
    (h : text.flatMap (escapeChar printable quote.char) ++ quote.char :: rest =
      text'.flatMap (escapeChar printable quote.char) ++ quote.char :: rest') :
    text = text' ∧ rest = rest' := by
  induction text generalizing text' with
  | nil =>
    cases text' with
    | nil => exact ⟨rfl, (List.cons.inj h).2⟩
    | cons c' tail' =>
      rw [List.flatMap_cons, List.append_assoc] at h
      exact absurd h.symm (escapeChar_append_ne quote c' _ _)
  | cons c tail ih =>
    rw [List.flatMap_cons, List.append_assoc] at h
    cases text' with
    | nil => exact absurd h (escapeChar_append_ne quote c _ _)
    | cons c' tail' =>
      rw [List.flatMap_cons, List.append_assoc] at h
      have hread := congrArg unescape h
      rw [unescape_escapeChar, unescape_escapeChar, Option.some.injEq, Prod.mk.injEq] at hread
      obtain ⟨rfl, htail⟩ := hread
      obtain ⟨rfl, hrest⟩ := ih htail
      exact ⟨rfl, hrest⟩

theorem reprStr_inj (h : reprStr printable text ++ rest = reprStr printable text' ++ rest') :
    text = text' ∧ rest = rest' := by
  rw [reprStr, reprStr, List.cons_append, List.cons_append, List.cons_append, List.cons_append,
    List.append_assoc, List.append_assoc] at h
  obtain ⟨hquote, hbody⟩ := List.cons.inj h
  rw [Quote.char_injective hquote] at hbody
  exact flatMap_escapeChar_inj _ hbody

theorem scan_plain_literal {quote : Quote} {text : List Char}
    (h : ∀ c ∈ text, c ≠ '\\' ∧ c ≠ quote.char) :
    scan ';' (.literal quote) text = some (.literal quote) := by
  induction text with
  | nil => rfl
  | cons c rest ih =>
    obtain ⟨hbackslash, hquote⟩ := h c List.mem_cons_self
    refine scan_cons_eq_some.mpr ⟨.literal quote, ?_, ih fun d hd ↦ h d (List.mem_cons_of_mem _ hd)⟩
    rw [step, if_neg hbackslash, if_neg hquote]

theorem scan_flatMap_escapeChar (quote : Quote) (text : List Char) :
    scan ';' (.literal quote) (text.flatMap (escapeChar printable quote.char)) =
      some (.literal quote) := by
  induction text with
  | nil => rfl
  | cons c rest ih =>
    have hc : scan ';' (.literal quote) (escapeChar printable quote.char c) =
        some (.literal quote) := by
      rcases escapeChar_cases printable quote c with
        ⟨heq, hbackslash, hquote⟩ | ⟨d, tail, heq, htail⟩
      · rw [heq]
        exact scan_plain_literal (by simpa using ⟨hbackslash, hquote⟩)
      · rw [heq]
        refine scan_cons_eq_some.mpr ⟨.escaped quote, rfl, ?_⟩
        exact scan_cons_eq_some.mpr ⟨.literal quote, rfl, scan_plain_literal htail⟩
    rw [List.flatMap_cons, scan_append, hc]
    exact ih

theorem balanced_reprStr (text : List Char) : Balanced ';' (reprStr printable text) :=
  balanced_literal (scan_flatMap_escapeChar _ text)

/-! ### Reading a value -/

def Follows : List Char → Prop
  | [] => True
  | c :: _ => c ∈ [',', ']', '}']

/-- The kinds of values, by the first characters of their texts. -/
inductive Kind
  | none
  | number
  | date
  | str
  | list
  | dict
deriving DecidableEq

def Value.kind : Value → Kind
  | none => .none
  | number _ => .number
  | date _ => .date
  | str _ => .str
  | list _ => .list
  | dict _ => .dict

def kindOf (c : Char) : Option Kind :=
  if c = 'N' then some .none
  else if c ∈ numberChars then some .number
  else if c = 'd' then some .date
  else if c = '\'' ∨ c = '"' then some .str
  else if c = '[' then some .list
  else if c = '{' then some .dict
  else none

theorem kindOf_quote (quote : Quote) : kindOf quote.char = some .str := by
  cases quote with
  | single => decide
  | double => decide

theorem kindOf_numberChars (h : c ∈ numberChars) : kindOf c = some .number := by
  have hall : ∀ c ∈ numberChars, kindOf c = some .number := by decide
  exact hall c h

theorem exists_repr_eq_cons (printable : Char → Bool) (value : Value) :
    ∃ c tail, repr printable value = c :: tail ∧ kindOf c = some value.kind := by
  cases value with
  | none => exact ⟨'N', _, by rw [repr], rfl⟩
  | number number =>
    obtain ⟨text, hne, hchars⟩ := number
    obtain ⟨c, tail, rfl⟩ := exists_cons_of_ne_nil hne
    exact ⟨c, tail, by rw [repr], kindOf_numberChars (hchars c mem_cons_self)⟩
  | date date => exact ⟨'d', _, by rw [repr, datePrefix]; rfl, rfl⟩
  | str text => exact ⟨(quoteOf text).char, _, by rw [repr, reprStr]; rfl, kindOf_quote _⟩
  | list elements =>
    cases elements with
    | nil => exact ⟨'[', _, by rw [repr], rfl⟩
    | cons element rest => exact ⟨'[', _, by rw [repr]; rfl, rfl⟩
  | dict items =>
    cases items with
    | nil => exact ⟨'{', _, by rw [repr], rfl⟩
    | cons item rest => exact ⟨'{', _, by rw [repr]; rfl, rfl⟩

theorem kind_eq {value value' : Value} {rest rest' : List Char}
    (h : repr printable value ++ rest = repr printable value' ++ rest') :
    value.kind = value'.kind := by
  obtain ⟨c, tail, heq, hkind⟩ := exists_repr_eq_cons printable value
  obtain ⟨c', tail', heq', hkind'⟩ := exists_repr_eq_cons printable value'
  rw [heq, heq'] at h
  rw [(List.cons.inj h).1, hkind'] at hkind
  exact (Option.some.inj hkind).symm

theorem eq_of_append_of_stop {P : Char → Prop} (htext : ∀ c ∈ text, P c) (htext' : ∀ c ∈ text', P c)
    (hrest : ∀ c ∈ rest.head?, ¬ P c) (hrest' : ∀ c ∈ rest'.head?, ¬ P c)
    (h : text ++ rest = text' ++ rest') : text = text' ∧ rest = rest' := by
  induction text generalizing text' with
  | nil =>
    cases text' with
    | nil => exact ⟨rfl, h⟩
    | cons c' tail' =>
      rw [nil_append] at h
      exact absurd (htext' c' mem_cons_self) (hrest c' (by rw [h]; rfl))
  | cons c tail ih =>
    cases text' with
    | nil =>
      rw [nil_append] at h
      exact absurd (htext c mem_cons_self) (hrest' c (by rw [← h]; rfl))
    | cons c' tail' =>
      obtain ⟨rfl, htail⟩ := List.cons.inj h
      obtain ⟨rfl, heq⟩ := ih (fun d hd ↦ htext d (mem_cons_of_mem _ hd))
        (fun d hd ↦ htext' d (mem_cons_of_mem _ hd)) htail
      exact ⟨rfl, heq⟩

theorem Follows.notMem_numberChars {rest : List Char} (h : Follows rest) :
    ∀ c ∈ rest.head?, c ∉ numberChars := by
  have hall : ∀ c ∈ [',', ']', '}'], c ∉ numberChars := by decide
  intro c hc
  cases rest with
  | nil => simp at hc
  | cons d tail =>
    obtain rfl : d = c := by simpa using hc
    exact hall d h

theorem follows_reprElements (elements : List Value) (rest : List Char) :
    Follows (reprElements printable elements ++ rest) := by
  cases elements with
  | nil =>
    show ']' ∈ [',', ']', '}']
    simp
  | cons element tail =>
    show ',' ∈ [',', ']', '}']
    simp

theorem follows_reprItems (items : List (List Char × Value)) (rest : List Char) :
    Follows (reprItems printable items ++ rest) := by
  cases items with
  | nil =>
    show '}' ∈ [',', ']', '}']
    simp
  | cons item tail =>
    show ',' ∈ [',', ']', '}']
    simp

theorem repr_append_ne (hc : kindOf c = Option.none) (value : Value)
    (rest rest' : List Char) : repr printable value ++ rest ≠ c :: rest' := by
  intro h
  obtain ⟨d, tail, heq, hkind⟩ := exists_repr_eq_cons printable value
  rw [heq] at h
  rw [(List.cons.inj h).1, hc] at hkind
  simp at hkind

theorem reprItem_append_ne (item : List Char × Value) (rest rest' : List Char) :
    reprItem printable item ++ rest ≠ '}' :: rest' := by
  intro h
  obtain ⟨key, value⟩ := item
  have hquote : (quoteOf key).char = '}' := (List.cons.inj h).1
  have hkind := kindOf_quote (quoteOf key)
  rw [hquote] at hkind
  exact absurd hkind (by decide)

theorem reprNumber_inj {number number' : Number} {rest rest' : List Char} (hrest : Follows rest)
    (hrest' : Follows rest') (h : repr printable (.number number) ++ rest =
      repr printable (.number number') ++ rest') : number = number' ∧ rest = rest' := by
  obtain ⟨heq, hrests⟩ := eq_of_append_of_stop number.chars number'.chars
    hrest.notMem_numberChars hrest'.notMem_numberChars h
  obtain ⟨text, hne, hchars⟩ := number
  obtain ⟨text', hne', hchars'⟩ := number'
  obtain rfl : text = text' := heq
  exact ⟨rfl, hrests⟩

theorem reprDate_inj {date date' : Date} {rest rest' : List Char}
    (h : repr printable (.date date) ++ rest = repr printable (.date date') ++ rest') :
    date = date' ∧ rest = rest' := by
  rw [repr, repr, append_assoc, append_assoc, append_assoc, append_assoc] at h
  have hclose : ∀ (tail : List Char), ∀ c ∈ (')' :: tail).head?, c ∉ dateChars := by
    intro tail c hc
    obtain rfl : ')' = c := by simpa using hc
    decide
  obtain ⟨heq, hrests⟩ := eq_of_append_of_stop date.chars date'.chars (hclose rest) (hclose rest')
    (append_cancel_left h)
  obtain ⟨text, hchars⟩ := date
  obtain ⟨text', hchars'⟩ := date'
  obtain rfl : text = text' := heq
  exact ⟨rfl, (List.cons.inj hrests).2⟩

mutual

theorem repr_inj : (value value' : Value) → {rest rest' : List Char} → Follows rest →
    Follows rest' → repr printable value ++ rest = repr printable value' ++ rest' →
    value = value' ∧ rest = rest'
  | .none, value', rest, rest', _, _, h => by
    have hkind := kind_eq h
    cases value' <;> simp only [Value.kind, reduceCtorEq] at hkind
    exact ⟨rfl, append_cancel_left h⟩
  | .number number, value', rest, rest', hrest, hrest', h => by
    have hkind := kind_eq h
    cases value' <;> simp only [Value.kind, reduceCtorEq] at hkind
    obtain ⟨rfl, hrests⟩ := reprNumber_inj hrest hrest' h
    exact ⟨rfl, hrests⟩
  | .date date, value', rest, rest', _, _, h => by
    have hkind := kind_eq h
    cases value' <;> simp only [Value.kind, reduceCtorEq] at hkind
    obtain ⟨rfl, hrests⟩ := reprDate_inj h
    exact ⟨rfl, hrests⟩
  | .str text, value', rest, rest', _, _, h => by
    have hkind := kind_eq h
    cases value' <;> simp only [Value.kind, reduceCtorEq] at hkind
    obtain ⟨rfl, hrests⟩ := reprStr_inj h
    exact ⟨rfl, hrests⟩
  | .list [], value', rest, rest', _, _, h => by
    have hkind := kind_eq h
    cases value' <;> simp only [Value.kind, reduceCtorEq] at hkind
    rename_i elements'
    cases elements' with
    | nil => exact ⟨rfl, append_cancel_left h⟩
    | cons element' tail' =>
      rw [repr, repr, cons_append, append_assoc] at h
      exact absurd (List.cons.inj h).2.symm (repr_append_ne rfl element' _ _)
  | .list (element :: tail), value', rest, rest', _, _, h => by
    have hkind := kind_eq h
    cases value' <;> simp only [Value.kind, reduceCtorEq] at hkind
    rename_i elements'
    cases elements' with
    | nil =>
      have htail : repr printable element ++ (reprElements printable tail ++ rest) =
          ']' :: rest' := by
        rw [← append_assoc]
        exact (List.cons.inj h).2
      exact absurd htail (repr_append_ne rfl element _ _)
    | cons element' tail' =>
      rw [repr, repr, cons_append, cons_append, append_assoc, append_assoc] at h
      obtain ⟨rfl, htail⟩ := repr_inj element element' (follows_reprElements tail rest)
        (follows_reprElements tail' rest') (List.cons.inj h).2
      obtain ⟨rfl, hrests⟩ := reprElements_inj tail tail' htail
      exact ⟨rfl, hrests⟩
  | .dict [], value', rest, rest', _, _, h => by
    have hkind := kind_eq h
    cases value' <;> simp only [Value.kind, reduceCtorEq] at hkind
    rename_i items'
    cases items' with
    | nil => exact ⟨rfl, append_cancel_left h⟩
    | cons item' tail' =>
      rw [repr, repr, cons_append, append_assoc] at h
      exact absurd (List.cons.inj h).2.symm (reprItem_append_ne item' _ _)
  | .dict (item :: tail), value', rest, rest', _, _, h => by
    have hkind := kind_eq h
    cases value' <;> simp only [Value.kind, reduceCtorEq] at hkind
    rename_i items'
    cases items' with
    | nil =>
      have htail : reprItem printable item ++ (reprItems printable tail ++ rest) =
          '}' :: rest' := by
        rw [← append_assoc]
        exact (List.cons.inj h).2
      exact absurd htail (reprItem_append_ne item _ _)
    | cons item' tail' =>
      rw [repr, repr, cons_append, cons_append, append_assoc, append_assoc] at h
      obtain ⟨rfl, htail⟩ := reprItem_inj item item' (follows_reprItems tail rest)
        (follows_reprItems tail' rest') (List.cons.inj h).2
      obtain ⟨rfl, hrests⟩ := reprItems_inj tail tail' htail
      exact ⟨rfl, hrests⟩

theorem reprElements_inj : (elements elements' : List Value) → {rest rest' : List Char} →
    reprElements printable elements ++ rest = reprElements printable elements' ++ rest' →
    elements = elements' ∧ rest = rest'
  | [], [], rest, rest', h => ⟨rfl, append_cancel_left h⟩
  | [], element' :: tail', rest, rest', h => by
    exact absurd (List.cons.inj h).1 (by decide)
  | element :: tail, [], rest, rest', h => by
    exact absurd (List.cons.inj h).1 (by decide)
  | element :: tail, element' :: tail', rest, rest', h => by
    rw [reprElements, reprElements, append_assoc, append_assoc] at h
    obtain ⟨rfl, htail⟩ := repr_inj element element' (follows_reprElements tail rest)
      (follows_reprElements tail' rest') (List.cons.inj (List.cons.inj h).2).2
    obtain ⟨rfl, hrests⟩ := reprElements_inj tail tail' htail
    exact ⟨rfl, hrests⟩

theorem reprItems_inj : (items items' : List (List Char × Value)) → {rest rest' : List Char} →
    reprItems printable items ++ rest = reprItems printable items' ++ rest' →
    items = items' ∧ rest = rest'
  | [], [], rest, rest', h => ⟨rfl, append_cancel_left h⟩
  | [], item' :: tail', rest, rest', h => by
    exact absurd (List.cons.inj h).1 (by decide)
  | item :: tail, [], rest, rest', h => by
    exact absurd (List.cons.inj h).1 (by decide)
  | item :: tail, item' :: tail', rest, rest', h => by
    rw [reprItems, reprItems, append_assoc, append_assoc] at h
    obtain ⟨rfl, htail⟩ := reprItem_inj item item' (follows_reprItems tail rest)
      (follows_reprItems tail' rest') (List.cons.inj (List.cons.inj h).2).2
    obtain ⟨rfl, hrests⟩ := reprItems_inj tail tail' htail
    exact ⟨rfl, hrests⟩

theorem reprItem_inj : (item item' : List Char × Value) → {rest rest' : List Char} →
    Follows rest → Follows rest' →
    reprItem printable item ++ rest = reprItem printable item' ++ rest' →
    item = item' ∧ rest = rest'
  | (key, value), (key', value'), rest, rest', hrest, hrest', h => by
    rw [reprItem, reprItem, append_assoc, append_assoc] at h
    obtain ⟨rfl, htail⟩ := reprStr_inj h
    obtain ⟨rfl, hrests⟩ := repr_inj value value' hrest hrest'
      (List.cons.inj (List.cons.inj htail).2).2
    exact ⟨rfl, hrests⟩

end

theorem repr_injective : Function.Injective (repr printable) := fun value value' h ↦
  (@repr_inj printable value value' [] [] trivial trivial (congrArg (· ++ []) h)).1

/-! ### Balanced texts -/

theorem plain_numberChars (h : c ∈ numberChars) : Plain ';' c := by
  have hall : ∀ c ∈ numberChars, c ≠ Quote.single.char ∧ c ≠ Quote.double.char ∧ c ≠ '\\' ∧
      c ≠ ';' := by decide
  exact hall c h

theorem plain_dateChars (h : c ∈ datePrefix ++ dateChars ++ [')']) : Plain ';' c := by
  have hall : ∀ c ∈ datePrefix ++ dateChars ++ [')'], c ≠ Quote.single.char ∧
      c ≠ Quote.double.char ∧ c ≠ '\\' ∧ c ≠ ';' := by decide
  exact hall c h

theorem plain_punctuation
    (h : c ∈ ['N', 'o', 'n', 'e', '[', ']', '{', '}', ',', ':', ' ']) : Plain ';' c := by
  have hall : ∀ c ∈ ['N', 'o', 'n', 'e', '[', ']', '{', '}', ',', ':', ' '],
      c ≠ Quote.single.char ∧ c ≠ Quote.double.char ∧ c ≠ '\\' ∧ c ≠ ';' := by decide
  exact hall c h

theorem balanced_of_punctuation {text : List Char}
    (h : ∀ c ∈ text, c ∈ ['N', 'o', 'n', 'e', '[', ']', '{', '}', ',', ':', ' ']) :
    Balanced ';' text :=
  balanced_of_plain fun c hc ↦ plain_punctuation (h c hc)

mutual

theorem balanced_repr : (value : Value) → Balanced ';' (repr printable value)
  | .none => by
    rw [repr]
    exact balanced_of_punctuation (by decide)
  | .number number => by
    exact balanced_of_plain fun c hc ↦ plain_numberChars (number.chars c hc)
  | .date date => by
    refine balanced_of_plain fun c hc ↦ plain_dateChars ?_
    rcases mem_append.mp hc with hc | hc
    · rcases mem_append.mp hc with hc | hc
      · exact mem_append_left _ (mem_append_left _ hc)
      · exact mem_append_left _ (mem_append_right _ (date.chars c hc))
    · exact mem_append_right _ hc
  | .str text => by
    exact balanced_reprStr text
  | .list [] => by
    rw [repr]
    exact balanced_of_punctuation (by decide)
  | .list (element :: rest) => by
    exact ((balanced_repr element).append (balanced_reprElements rest)).cons
      (plain_punctuation (by simp))
  | .dict [] => by
    rw [repr]
    exact balanced_of_punctuation (by decide)
  | .dict (item :: rest) => by
    exact ((balanced_reprItem item).append (balanced_reprItems rest)).cons
      (plain_punctuation (by simp))

theorem balanced_reprElements :
    (elements : List Value) → Balanced ';' (reprElements printable elements)
  | [] => by
    exact balanced_nil.cons (plain_punctuation (by simp))
  | element :: rest => by
    exact (((balanced_repr element).append (balanced_reprElements rest)).cons
      (plain_punctuation (by simp))).cons (plain_punctuation (by simp))

theorem balanced_reprItems :
    (items : List (List Char × Value)) → Balanced ';' (reprItems printable items)
  | [] => by
    exact balanced_nil.cons (plain_punctuation (by simp))
  | item :: rest => by
    exact (((balanced_reprItem item).append (balanced_reprItems rest)).cons
      (plain_punctuation (by simp))).cons (plain_punctuation (by simp))

theorem balanced_reprItem : (item : List Char × Value) → Balanced ';' (reprItem printable item)
  | (key, value) => by
    exact (balanced_reprStr key).append (((balanced_repr value).cons
      (plain_punctuation (by simp))).cons (plain_punctuation (by simp)))

end

end Sentry.Library.Python
