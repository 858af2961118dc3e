import Mathlib.Data.List.Basic

/-!
# JSON texts

The grammar of JSON over the bytes of a text, and a scanner that counts the commas of the outermost
brackets. In the text of an array these are one fewer than its items (`scan_array`), so a text that
lacks a comma is no array of as many items.
-/

namespace Sentry.Library.JsonText

open List

abbrev Bytes := List UInt8

/-- The byte of an ASCII character. -/
def byte (c : Char) : UInt8 := UInt8.ofNat c.toNat

def Blank (text : Bytes) : Prop := ∀ b ∈ text, b ∈ [' ', '\t', '\n', '\r'].map byte

def Digits (text : Bytes) : Prop := text ≠ [] ∧ ∀ b ∈ text, b ∈ "0123456789".toList.map byte

def IsHex (b : UInt8) : Prop := b ∈ "0123456789abcdefABCDEF".toList.map byte

inductive IsNumber : Bytes → Prop
  | mk {sign int frac exp : Bytes} (hsign : sign = [] ∨ sign = [byte '-']) (hint : Digits int)
      (hzero : int.head? = some (byte '0') → int = [byte '0'])
      (hfrac : frac = [] ∨ ∃ digits, frac = byte '.' :: digits ∧ Digits digits)
      (hexp : exp = [] ∨ ∃ e sign digits, exp = e :: (sign ++ digits) ∧
        e ∈ ['e', 'E'].map byte ∧ sign ∈ [[], [byte '+'], [byte '-']] ∧ Digits digits) :
      IsNumber (sign ++ int ++ frac ++ exp)

/-- What stands for one character of a string. -/
inductive IsStringPiece : Bytes → Prop
  | plain {c : Char} (hc : 0x20 ≤ c.toNat ∧ c ≠ '"' ∧ c ≠ '\\') :
      IsStringPiece (String.utf8EncodeChar c)
  | escape {b : UInt8} (hb : b ∈ "\"\\/bfnrt".toList.map byte) : IsStringPiece [byte '\\', b]
  | unicode {digits : Bytes} (hlength : digits.length = 4) (hdigits : ∀ b ∈ digits, IsHex b) :
      IsStringPiece (byte '\\' :: byte 'u' :: digits)

inductive IsString : Bytes → Prop
  | mk {pieces : List Bytes} (h : ∀ piece ∈ pieces, IsStringPiece piece) :
      IsString (byte '"' :: (pieces.flatten ++ [byte '"']))

/-- A value, with the texts of its scalars and names. -/
inductive Value
  | scalar (text : Bytes)
  | array (items : List Value)
  | object (members : List (Bytes × Value))

mutual

/-- A text is a value. -/
inductive IsValue : Bytes → Value → Prop
  | literal {name : String} (h : name ∈ ["true", "false", "null"]) :
      IsValue (name.toList.map byte) (.scalar (name.toList.map byte))
  | number {text : Bytes} (h : IsNumber text) : IsValue text (.scalar text)
  | string {text : Bytes} (h : IsString text) : IsValue text (.scalar text)
  | emptyArray {blank : Bytes} (h : Blank blank) :
      IsValue (byte '[' :: (blank ++ [byte ']'])) (.array [])
  | array {text : Bytes} {items : List Value} (h : IsItems text items) :
      IsValue (byte '[' :: (text ++ [byte ']'])) (.array items)
  | emptyObject {blank : Bytes} (h : Blank blank) :
      IsValue (byte '\x7b' :: (blank ++ [byte '\x7d'])) (.object [])
  | object {text : Bytes} {members : List (Bytes × Value)} (h : IsMembers text members) :
      IsValue (byte '\x7b' :: (text ++ [byte '\x7d'])) (.object members)

/-- A text is a value with white space around it. -/
inductive IsText : Bytes → Value → Prop
  | mk {before text after : Bytes} {value : Value} (hbefore : Blank before)
      (h : IsValue text value) (hafter : Blank after) : IsText (before ++ text ++ after) value

/-- A text is values that are separated by commas. -/
inductive IsItems : Bytes → List Value → Prop
  | one {text : Bytes} {value : Value} (h : IsText text value) : IsItems text [value]
  | cons {text rest : Bytes} {value : Value} {items : List Value} (h : IsText text value)
      (hrest : IsItems rest items) : IsItems (text ++ byte ',' :: rest) (value :: items)

/-- A text is names with values that are separated by commas. -/
inductive IsMembers : Bytes → List (Bytes × Value) → Prop
  | one {before name after text : Bytes} {value : Value} (hbefore : Blank before)
      (hname : IsString name) (hafter : Blank after) (h : IsText text value) :
      IsMembers (before ++ name ++ after ++ byte ':' :: text) [(name, value)]
  | cons {before name after text rest : Bytes} {value : Value} {members : List (Bytes × Value)}
      (hbefore : Blank before) (hname : IsString name) (hafter : Blank after)
      (h : IsText text value) (hrest : IsMembers rest members) :
      IsMembers (before ++ name ++ after ++ byte ':' :: text ++ byte ',' :: rest)
        ((name, value) :: members)

end

/-- The brackets that are open and the commas that were directly within the outermost one. -/
inductive Scanner
  | plain (depth commas : ℕ)
  | quoted (depth commas : ℕ)
  | escaped (depth commas : ℕ)

namespace Scanner

def step : Scanner → UInt8 → Scanner
  | .escaped depth commas, _ => .quoted depth commas
  | .quoted depth commas, b =>
    if b = byte '\\' then .escaped depth commas
    else if b = byte '"' then .plain depth commas
    else .quoted depth commas
  | .plain depth commas, b =>
    if b = byte '"' then .quoted depth commas
    else if b = byte '[' ∨ b = byte '\x7b' then .plain (depth + 1) commas
    else if b = byte ']' ∨ b = byte '\x7d' then .plain (depth - 1) commas
    else if b = byte ',' ∧ depth = 1 then .plain depth (commas + 1)
    else .plain depth commas

def scan (s : Scanner) (text : Bytes) : Scanner := text.foldl step s

end Scanner

open Scanner

variable {depth commas : ℕ} {text : Bytes}

theorem scan_append (s : Scanner) (first second : Bytes) :
    s.scan (first ++ second) = (s.scan first).scan second := foldl_append

theorem scan_cons (s : Scanner) (b : UInt8) (text : Bytes) :
    s.scan (b :: text) = (s.step b).scan text := rfl

def structural : Bytes := ['"', '[', '\x7b', ']', '\x7d', ','].map byte

theorem scan_plain (h : ∀ b ∈ text, b ∉ structural) :
    (plain depth commas).scan text = plain depth commas := by
  induction text with
  | nil => rfl
  | cons b text ih =>
    rw [List.forall_mem_cons] at h
    have hb := h.1
    simp only [structural, List.map_cons, List.map_nil, List.mem_cons, List.not_mem_nil, or_false,
      not_or] at hb
    rw [scan_cons, step, if_neg hb.1, if_neg (not_or.mpr ⟨hb.2.1, hb.2.2.1⟩),
      if_neg (not_or.mpr ⟨hb.2.2.2.1, hb.2.2.2.2.1⟩), if_neg fun hcomma ↦ hb.2.2.2.2.2 hcomma.1]
    exact ih h.2

theorem scan_blank (h : Blank text) : (plain depth commas).scan text = plain depth commas := by
  have hblank : ∀ b ∈ [' ', '\t', '\n', '\r'].map byte, b ∉ structural := by decide +kernel
  exact scan_plain fun b hb ↦ hblank b (h b hb)

theorem scan_number (h : IsNumber text) : (plain depth commas).scan text = plain depth commas := by
  have hchars : ∀ b ∈ "0123456789+-.eE".toList.map byte, b ∉ structural := by decide +kernel
  have hdigit : "0123456789".toList.map byte ⊆ "0123456789+-.eE".toList.map byte := by decide +kernel
  have hexpSign : ∀ e ∈ ['e', 'E'].map byte, e ∈ "0123456789+-.eE".toList.map byte := by
    decide +kernel
  have hsigns : ∀ sign ∈ [[], [byte '+'], [byte '-']],
      sign ⊆ "0123456789+-.eE".toList.map byte := by decide +kernel
  cases h with
  | @mk sign int frac exp hsign hint hzero hfrac hexp =>
    refine scan_plain fun b hb ↦ hchars b ?_
    simp only [List.mem_append] at hb
    rcases hb with ((hb | hb) | hb) | hb
    · rcases hsign with rfl | rfl
      · exact absurd hb List.not_mem_nil
      · exact hsigns _ (by decide) hb
    · exact hdigit (hint.2 b hb)
    · rcases hfrac with rfl | ⟨digits, rfl, hdigits⟩
      · exact absurd hb List.not_mem_nil
      · rcases List.mem_cons.mp hb with rfl | hb
        · decide
        · exact hdigit (hdigits.2 b hb)
    · rcases hexp with rfl | ⟨e, sign, digits, rfl, he, hsign, hdigits⟩
      · exact absurd hb List.not_mem_nil
      · rw [List.mem_cons, List.mem_append] at hb
        rcases hb with rfl | hb | hb
        · exact hexpSign _ he
        · exact hsigns sign hsign hb
        · exact hdigit (hdigits.2 b hb)

theorem scan_quoted (h : ∀ b ∈ text, b ≠ byte '\\' ∧ b ≠ byte '"') :
    (quoted depth commas).scan text = quoted depth commas := by
  induction text with
  | nil => rfl
  | cons b text ih =>
    rw [forall_mem_cons] at h
    rw [scan_cons, step, if_neg h.1.1, if_neg h.1.2]
    exact ih h.2

/-- The bytes of a character that is not ASCII are not ASCII either. -/
theorem ne_of_mem_utf8EncodeChar {c d : Char} (hd : d.toNat < 128) (hne : c ≠ d) {b : UInt8}
    (hb : b ∈ String.utf8EncodeChar c) : b ≠ byte d := by
  intro heq
  have hbyte : b.toNat = d.toNat := by
    rw [heq, byte, UInt8.toNat_ofNat', Nat.mod_eq_of_lt (by omega)]
  have hcd : c.toNat ≠ d.toNat := fun h ↦ hne (Char.toNat_inj.mp h)
  unfold String.utf8EncodeChar at hb
  simp only [show c.val.toNat = c.toNat from rfl] at hb
  split_ifs at hb
  all_goals
    simp only [mem_cons, not_mem_nil, or_false] at hb
    rcases hb with rfl | rfl | rfl | rfl <;> rw [UInt8.toNat_ofNat'] at hbyte <;> omega

theorem scan_string (h : IsString text) : (plain depth commas).scan text = plain depth commas := by
  have hpiece : ∀ {piece : Bytes}, IsStringPiece piece →
      (quoted depth commas).scan piece = quoted depth commas := by
    intro piece h
    cases h with
    | plain hc =>
      exact scan_quoted fun b hb ↦ ⟨ne_of_mem_utf8EncodeChar (by decide) hc.2.2 hb,
        ne_of_mem_utf8EncodeChar (by decide) hc.2.1 hb⟩
    | escape hb => rfl
    | @unicode digits hlength hdigits =>
      have hhex : ∀ b ∈ "0123456789abcdefABCDEF".toList.map byte,
          b ≠ byte '\\' ∧ b ≠ byte '"' := by decide +kernel
      show (quoted depth commas).scan digits = _
      exact scan_quoted fun b hb ↦ hhex b (hdigits b hb)
  cases h with
  | @mk pieces hpieces =>
    have hflatten : (quoted depth commas).scan pieces.flatten = quoted depth commas := by
      induction pieces with
      | nil => rfl
      | cons piece pieces ih =>
        rw [List.forall_mem_cons] at hpieces
        rw [List.flatten_cons, scan_append, hpiece hpieces.1, ih hpieces.2]
    rw [scan_cons, show (plain depth commas).step (byte '"') = quoted depth commas from rfl,
      scan_append, hflatten]
    rfl

def commasAt (depth length : ℕ) : ℕ := if depth = 1 then length - 1 else 0

theorem scan_comma : (plain (depth + 1) commas).step (byte ',') =
    plain (depth + 1) (commas + commasAt (depth + 1) 2) := by
  cases depth with
  | zero => rfl
  | succ depth => rfl

theorem scan_array_of_items {length : ℕ} (h : (plain (depth + 1) commas).scan text =
    plain (depth + 1) (commas + commasAt (depth + 1) length)) :
    (plain depth commas).scan (byte '[' :: (text ++ [byte ']'])) =
      plain depth (commas + commasAt (depth + 1) length) := by
  rw [scan_cons, show (plain depth commas).step (byte '[') = plain (depth + 1) commas from rfl,
    scan_append, h]
  rfl

theorem scan_array_of_blank (h : Blank text) :
    (plain depth commas).scan (byte '[' :: (text ++ [byte ']'])) = plain depth commas := by
  rw [scan_cons, scan_append]
  show ((plain (depth + 1) commas).scan text).scan _ = _
  rw [scan_blank h]
  rfl

mutual

theorem scan_value {depth commas : ℕ} {text : Bytes} {value : Value} :
    IsValue text value → (plain (depth + 1) commas).scan text = plain (depth + 1) commas
  | .literal h => by
    have hchars : ∀ name ∈ ["true", "false", "null"], ∀ b ∈ name.toList.map byte,
        b ∉ structural := by decide +kernel
    exact scan_plain (hchars _ h)
  | .number h => scan_number h
  | .string h => scan_string h
  | .emptyArray h => scan_array_of_blank h
  | .array h => scan_array_of_items (scan_items h)
  | .emptyObject h => by
    rw [scan_cons, scan_append]
    show ((plain (depth + 2) commas).scan _).scan _ = _
    rw [scan_blank h]
    rfl
  | .object h => by
    rw [scan_cons, scan_append]
    show ((plain (depth + 2) commas).scan _).scan _ = _
    rw [scan_members h]
    rfl

theorem scan_text {depth commas : ℕ} {text : Bytes} {value : Value} :
    IsText text value → (plain (depth + 1) commas).scan text = plain (depth + 1) commas
  | .mk hbefore h hafter => by
    rw [scan_append, scan_append, scan_blank hbefore, scan_value h, scan_blank hafter]

/-- Between the items of an array are one fewer commas. -/
theorem scan_items {depth commas : ℕ} {text : Bytes} {items : List Value} :
    IsItems text items → (plain (depth + 1) commas).scan text =
      plain (depth + 1) (commas + commasAt (depth + 1) items.length)
  | .one h => by
    rw [scan_text h]
    cases depth with
    | zero | succ => rfl
  | @IsItems.cons text _ _ items h hrest => by
    have hitems : items ≠ [] := by cases hrest <;> exact cons_ne_nil _ _
    have hlength := length_pos_iff.mpr hitems
    rw [scan_append, scan_text h, scan_cons, scan_comma, scan_items hrest, Nat.add_assoc]
    congr 2
    unfold commasAt
    split
    · simp only [length_cons]
      omega
    · rfl

theorem scan_members {depth commas : ℕ} {text : Bytes} {members : List (Bytes × Value)} :
    IsMembers text members → (plain (depth + 2) commas).scan text = plain (depth + 2) commas
  | .one hbefore hname hafter h => by
    rw [scan_append, scan_append, scan_append, scan_blank hbefore, scan_string hname,
      scan_blank hafter, scan_cons]
    exact scan_text h
  | .cons hbefore hname hafter h hrest => by
    simp only [scan_append, scan_cons]
    rw [scan_blank hbefore, scan_string hname, scan_blank hafter]
    show (((plain (depth + 2) commas).scan _).step _).scan _ = _
    rw [scan_text h]
    exact scan_members hrest

end

/-- The text of an array has one fewer commas than items. -/
theorem scan_array {items : List Value} (h : IsText text (.array items)) :
    (plain 0 0).scan text = plain 0 (items.length - 1) := by
  cases h with
  | mk hbefore h hafter =>
    rw [scan_append, scan_append, scan_blank hbefore]
    cases h with
    | emptyArray h =>
      rw [scan_array_of_blank h, scan_blank hafter]
      rfl
    | array h =>
      rw [scan_array_of_items (scan_items h), scan_blank hafter]
      exact congrArg (plain 0) (Nat.zero_add _)

end Sentry.Library.JsonText
