import Sentry.EventSearch.Grammar

/-!
# What the rules of filters read

A filter of a key is a key, a colon and a value, to which the rules are applied in their order
(`filter_of_searchKey`, `filter_of_explicitTagKey`). Dates, durations, sizes and boolean values are
values as a whole (`ValueRule`), and none of the forms begins with an operator (`NoForm`).
-/

namespace Sentry.EventSearch.Grammar

open List
open Library (Peg)
open Library.Repetition (manyWithin manyWithin_of_none manyWithin_of_some)
open Library.Peg

variable {p : Char → Prop} {s t v w k : Text} {α κ : Type}

/-! ### Words -/

variable {c : Char}

theorem reads_char (h : p c) : Reads p (char c) :=
  (reads_literal fun _ hc ↦ mem_singleton.mp hc ▸ h).bind fun _ ↦ reads_pure _

theorem char_eq_some {value : Unit} (h : char c s = some (value, t)) : s = c :: t := by
  obtain ⟨read, left, hread, hpure⟩ := bind_eq_some.mp h
  rw [pure_apply, Option.some.injEq, Prod.mk.injEq] at hpure
  rw [(literal_eq_some hread).2, hpure.2, singleton_append]

theorem reads_mapM_satisfy {word : Text}
    (h : ∀ letter ∈ word, ∀ c, sameLetter letter c = true → p c) :
    Reads p (word.mapM fun letter ↦ satisfy (sameLetter letter)) := by
  induction word with
  | nil => exact reads_pure _
  | cons letter word ih =>
    rw [mapM_cons]
    exact (reads_satisfy (h letter mem_cons_self)).bind fun _ ↦
      (ih fun other hother ↦ h other (mem_cons_of_mem _ hother)).bind fun _ ↦ reads_pure _

variable {words : List Text}

theorem reads_wordIgnoringCase
    (h : ∀ word ∈ words, ∀ letter ∈ word, ∀ c, sameLetter letter c = true → p c) :
    Reads p (wordIgnoringCase words) := by
  induction words with
  | nil => exact reads_failure
  | cons word words ih =>
    exact (reads_mapM_satisfy (h word mem_cons_self)).text.orElse
      (ih fun other hother ↦ h other (mem_cons_of_mem _ hother))

theorem prints_wordIgnoringCase (words : List Text) : Prints [] id (wordIgnoringCase words) := by
  induction words with
  | nil => exact prints_failure
  | cons word words ih =>
    have hreads : Reads (fun _ ↦ True) (word.mapM fun letter ↦ satisfy (sameLetter letter)) :=
      reads_mapM_satisfy fun _ _ _ _ ↦ trivial
    exact (prints_text hreads).orElse ih

theorem oneOf_eq_some {read rest : Text}
    (h : oneOf words s = some (read, rest)) : read ∈ words ∧ s = read ++ rest := by
  induction words with
  | nil => nomatch h
  | cons word words ih =>
    rw [oneOf, orElse_apply, Option.or_eq_some_iff] at h
    rcases h with h | ⟨-, h⟩
    · obtain ⟨rfl, hs⟩ := literal_eq_some h
      exact ⟨mem_cons_self, hs⟩
    · exact ⟨mem_cons_of_mem _ (ih h).1, (ih h).2⟩

theorem reads_oneOf (h : ∀ word ∈ words, ∀ c ∈ word, p c) : Reads p (oneOf words) := by
  intro s read rest hs
  obtain ⟨hread, hsplit⟩ := oneOf_eq_some hs
  exact ⟨read, hsplit, h read hread⟩

theorem prints_oneOf (words : List Text) : Prints [] id (oneOf words) :=
  fun _ _ _ h ↦ (oneOf_eq_some h).2

theorem not_sameLetter {letter c : Char} (hc : c ∈ ['"', '\\', '=', '!', '<', '>', ':'])
    (hletter : letter ∉ ['"', '\\', '=', '!', '<', '>', ':']) : sameLetter letter c = false := by
  have hlower : c.toLower = c := by
    simp only [mem_cons, not_mem_nil, or_false] at hc
    rcases hc with rfl | rfl | rfl | rfl | rfl | rfl | rfl <;> rfl
  have hkelvin : c ≠ '\u212A' := by
    rintro rfl
    revert hc
    decide
  have hlong : c ≠ '\u017F' := by
    rintro rfl
    revert hc
    decide
  have hne : c ≠ letter := fun heq ↦ hletter (heq ▸ hc)
  simp [sameLetter, hlower, hkelvin, hlong, hne]

/-! ### Values -/

def Unmarked (c : Char) : Prop := c ∉ ['"', '\\', '=', '!', '<', '>']

instance (c : Char) : Decidable (Unmarked c) := inferInstanceAs (Decidable (c ∉ _))

theorem unmarked_of_isDigit (h : isDigit c = true) : Unmarked c := by
  intro hc
  have hdigit : ∀ c ∈ ['"', '\\', '=', '!', '<', '>'], isDigit c = false := by decide
  rw [hdigit c hc] at h
  nomatch h

theorem unmarked_of_isDecimal (h : isDecimal c = true) : Unmarked c := by
  intro hc
  have hdecimal : ∀ c ∈ ['"', '\\', '=', '!', '<', '>'], isDecimal c = false := by decide
  rw [hdecimal c hc] at h
  nomatch h

theorem reads_unmarked_wordIgnoringCase
    (h : ∀ word ∈ words, ∀ letter ∈ word, letter ∉ ['"', '\\', '=', '!', '<', '>', ':']) :
    Reads Unmarked (wordIgnoringCase words) := by
  refine reads_wordIgnoringCase fun word hword letter hletter c hsame hc ↦ ?_
  have hmark : c ∈ ['"', '\\', '=', '!', '<', '>', ':'] := List.mem_append_left [':'] hc
  rw [not_sameLetter hmark (h word hword letter hletter)] at hsame
  nomatch hsame

theorem reads_unmarked_satisfy {chars : List Char} (h : ∀ c ∈ chars, Unmarked c) :
    Reads Unmarked (satisfy (· ∈ chars)) :=
  reads_satisfy fun c hc ↦ h c (of_decide_eq_true hc)

theorem unmarked_dot : Unmarked '.' := by decide

theorem reads_decimals : Reads Unmarked (opt do
    char '.'
    spanning isDigit) := by
  have hdot : Reads Unmarked (char '.') := reads_char unmarked_dot
  have hdigits : Reads Unmarked (spanning isDigit) := reads_spanning fun _ ↦ unmarked_of_isDigit
  exact (hdot.bind fun _ ↦ hdigits).opt

theorem reads_numericBody : Reads Unmarked (do
    let _ ← spanning1 isDigit
    let _ ← opt do
      char '.'
      spanning isDigit) := by
  have hwhole : Reads Unmarked (spanning1 isDigit) := reads_spanning1 fun _ ↦ unmarked_of_isDigit
  exact hwhole.bind fun _ ↦ reads_decimals.bind fun _ ↦ reads_pure _

theorem reads_numeric : Reads Unmarked numeric := reads_numericBody.text

theorem prints_numeric : Prints [] id numeric := prints_text reads_numericBody

def EndsValue (s : Text) : Prop := ∃ result, endValue s = some result

theorem ends_endValue : Ends EndsValue (ahead endValue) := ends_ahead fun _ result h ↦ ⟨result, h⟩

theorem EndsValue.eq_nil (h : EndsValue s) (hs : ∀ c ∈ s, isValueChar c = true) : s = [] := by
  cases s with
  | nil => rfl
  | cons c s =>
    obtain ⟨result, hresult⟩ := h
    rw [endValue, orElse_apply] at hresult
    have hc := hs c List.mem_cons_self
    have hnot : c ∉ ['\t', '\n', ' ', ')'] := by
      intro hmem
      have hvalue : ∀ c ∈ ['\t', '\n', ' ', ')'], isValueChar c = false := by decide
      rw [hvalue c hmem] at hc
      exact Bool.false_ne_true hc
    have hsatisfy : satisfy (fun c ↦ decide (c ∈ ['\t', '\n', ' ', ')'])) (c :: s) = none := by
      rw [satisfy, if_neg (by simpa using hnot)]
    rw [bind_of_none hsatisfy] at hresult
    exact (Option.some_ne_none _ hresult.symm).elim

/-- The rule of a form that a value has as a whole. -/
structure ValueRule (print : α → Text) (e : Peg Char α) : Prop where
  reads : Reads Unmarked e
  prints : Prints [] print e
  ends : Ends EndsValue e

variable {rest : Text}

theorem ValueRule.whole {print : α → Text} {e : Peg Char α} (he : ValueRule print e)
    (hv : ∀ c ∈ v, isValueChar c = true) {value : α}
    (h : e v = some (value, rest)) : rest = [] ∧ print value = v ∧ ∀ c ∈ v, Unmarked c := by
  obtain ⟨read, hsplit, hread⟩ := he.reads h
  have hrest : rest = [] := (he.ends h).eq_nil fun c hc ↦ hv c (hsplit ▸ List.mem_append_right _ hc)
  have hprint := he.prints h
  rw [hrest, List.append_nil] at hsplit hprint
  exact ⟨hrest, hprint.symm, hsplit ▸ hread⟩

theorem valueRule_text {e : Peg Char α} (hreads : Reads Unmarked e) (hends : Ends EndsValue e) :
    ValueRule id (text e) :=
  ⟨hreads.text, prints_text hreads, hends.text⟩

theorem reads_dateFormat : Reads Unmarked dateFormat := by
  have hdigits (n : ℕ) : Reads Unmarked (replicate isDecimal n) :=
    reads_replicate (fun _ ↦ unmarked_of_isDecimal) n
  have hdash : Reads Unmarked (char '-') := reads_char (by decide)
  exact (hdigits 4).bind fun _ ↦ hdash.bind fun _ ↦ (hdigits 2).bind fun _ ↦ hdash.bind fun _ ↦
    (hdigits 2).bind fun _ ↦ reads_pure _

theorem reads_timeFormat : Reads Unmarked timeFormat := by
  have hdigits (n : ℕ) : Reads Unmarked (replicate isDecimal n) :=
    reads_replicate (fun _ ↦ unmarked_of_isDecimal) n
  have hdigit : Reads Unmarked (satisfy isDecimal) := reads_satisfy fun _ ↦ unmarked_of_isDecimal
  have hT : Reads Unmarked (char 'T') := reads_char (by decide)
  have hcolon : Reads Unmarked (char ':') := reads_char (by decide)
  have hdot : Reads Unmarked (char '.') := reads_char unmarked_dot
  have hms : Reads Unmarked msFormat :=
    hdigit.bind fun _ ↦ hdigit.opt.bind fun _ ↦ hdigit.opt.bind fun _ ↦ hdigit.opt.bind fun _ ↦
      hdigit.opt.bind fun _ ↦ hdigit.opt.bind fun _ ↦ reads_pure _
  have hfraction := (hdot.bind fun _ ↦ hms).opt
  exact hT.bind fun _ ↦ (hdigits 2).bind fun _ ↦ hcolon.bind fun _ ↦ (hdigits 2).bind fun _ ↦
    hcolon.bind fun _ ↦ (hdigits 2).bind fun _ ↦ hfraction.bind fun _ ↦ reads_pure _

theorem reads_tzFormat : Reads Unmarked tzFormat := by
  have hdigits : Reads Unmarked (replicate isDecimal 2) :=
    reads_replicate (fun _ ↦ unmarked_of_isDecimal) 2
  have hsign : Reads Unmarked (satisfy (· ∈ ['+', '-'])) := reads_unmarked_satisfy (by decide)
  have hcolon : Reads Unmarked (char ':') := reads_char (by decide)
  exact hsign.bind fun _ ↦ hdigits.bind fun _ ↦ hcolon.bind fun _ ↦ hdigits.bind fun _ ↦
    reads_pure _

theorem valueRule_iso8601DateFormat : ValueRule id iso8601DateFormat := by
  have hZ : Reads Unmarked (char 'Z') := reads_char (by decide)
  refine valueRule_text ?_ ?_
  · exact reads_dateFormat.bind fun _ ↦ reads_timeFormat.opt.bind fun _ ↦
      (hZ.orElse reads_tzFormat).opt.bind fun _ ↦ reads_ahead
  · exact Ends.bind fun _ ↦ Ends.bind fun _ ↦ Ends.bind fun _ ↦ ends_endValue

theorem valueRule_relDateFormat : ValueRule id relDateFormat := by
  have hsign : Reads Unmarked (satisfy (· ∈ ['+', '-'])) := reads_unmarked_satisfy (by decide)
  have hdigits : Reads Unmarked (spanning1 isDigit) := reads_spanning1 fun _ ↦ unmarked_of_isDigit
  have hunit : Reads Unmarked (satisfy (· ∈ ['w', 'd', 'h', 'm'])) :=
    reads_unmarked_satisfy (by decide)
  refine valueRule_text ?_ ?_
  · exact hsign.bind fun _ ↦ hdigits.bind fun _ ↦ hunit.bind fun _ ↦ reads_ahead
  · exact Ends.bind fun _ ↦ Ends.bind fun _ ↦ Ends.bind fun _ ↦ ends_endValue

theorem valueRule_unit {unit : Peg Char Text} (hreads : Reads Unmarked unit)
    (hprints : Prints [] id unit) : ValueRule (fun value ↦ value.1 ++ value.2) (do
      let value ← numeric
      let unit ← unit
      ahead endValue
      return (value, unit)) := by
  refine ⟨?_, ?_, ?_⟩
  · exact reads_numeric.bind fun _ ↦ hreads.bind fun _ ↦ reads_ahead.bind fun _ ↦ reads_pure _
  · refine prints_numeric.bind fun value ↦ hprints.bind fun unit ↦ prints_ahead.bind fun _ ↦ ?_
    rw [List.append_nil]
    exact prints_pure (fun value : Text × Text ↦ value.1 ++ value.2) (value, unit)
  · exact Ends.bind fun _ ↦ Ends.bind fun _ ↦ ends_endValue.map _

theorem valueRule_durationFormat : ValueRule (fun value ↦ value.1 ++ value.2) durationFormat :=
  valueRule_unit (reads_oneOf (by decide)) (prints_oneOf _)

theorem valueRule_sizeFormat : ValueRule (fun value ↦ value.1 ++ value.2) sizeFormat :=
  valueRule_unit ((reads_unmarked_wordIgnoringCase (by decide)).orElse
      (reads_unmarked_wordIgnoringCase (by decide)))
    ((prints_wordIgnoringCase _).orElse (prints_wordIgnoringCase _))

theorem valueRule_booleanValue : ValueRule id booleanValue := by
  refine ⟨?_, ?_, ?_⟩
  · exact (reads_unmarked_wordIgnoringCase (by decide)).bind fun _ ↦ reads_ahead.bind fun _ ↦
      reads_pure _
  · refine (prints_wordIgnoringCase _).bind fun value ↦ prints_ahead.bind fun _ ↦ ?_
    rw [List.append_nil]
    exact prints_pure id value
  · exact Ends.bind fun _ ↦ ends_endValue.map _

def NumericNode.toText (node : NumericNode) : Text := node.sign ++ node.value ++ node.suffix

theorem reads_numericValue : Reads Unmarked numericValue := by
  have hsign : Reads Unmarked (opt (literal ['-'])) := (reads_literal (by decide)).opt
  have hsuffix : Reads Unmarked (opt (wordIgnoringCase [['k'], ['m'], ['b']])) :=
    (reads_unmarked_wordIgnoringCase (by decide)).opt
  exact hsign.bind fun _ ↦ reads_numeric.bind fun _ ↦ hsuffix.bind fun _ ↦ reads_ahead.bind fun _ ↦
    reads_pure _

theorem prints_numericValue : Prints [] NumericNode.toText numericValue := by
  refine (prints_literal _).opt.bind fun sign ↦ prints_numeric.bind fun value ↦
    (prints_wordIgnoringCase _).opt.bind fun suffix ↦ prints_ahead.bind fun _ ↦ ?_
  rw [List.append_nil]
  exact prints_pure NumericNode.toText ⟨sign.getD [], value, suffix.getD []⟩

/-! ### Operators -/

theorem operator_eq_some {operator w : Text} (h : Grammar.operator t = some (operator, w)) :
    operator ∈ [['>', '='], ['<', '='], ['>'], ['<'], ['='], ['!', '=']] ∧ t = operator ++ w :=
  oneOf_eq_some h

theorem operator_not_equal (t : Text) : operator ('!' :: '=' :: t) = some (['!', '='], t) := rfl

/-- No form of a value begins here. -/
structure NoForm (t : Text) : Prop where
  iso8601DateFormat : iso8601DateFormat t = none
  relDateFormat : relDateFormat t = none
  durationFormat : durationFormat t = none
  sizeFormat : sizeFormat t = none
  booleanValue : booleanValue t = none
  numericInList : numericInList t = none
  numericValue : numericValue t = none
  textInList : textInList t = none

theorem noForm_of_operator {operator w : Text} (h : Grammar.operator t = some (operator, w)) :
    NoForm t := by
  obtain ⟨hoperator, rfl⟩ := operator_eq_some h
  simp only [List.mem_cons, List.not_mem_nil, or_false] at hoperator
  rcases hoperator with rfl | rfl | rfl | rfl | rfl | rfl
  all_goals exact ⟨rfl, rfl, rfl, rfl, rfl, rfl, rfl, rfl⟩

theorem head_of_list {α : Type} {item : Peg Char α} (h : (do
    char '['
    let items ← itemsOf item
    char ']'
    ahead endValue
    return items : Peg Char (α × List (Option α))) t ≠ none) : ∃ rest, t = '[' :: rest := by
  cases hbracket : char '[' t with
  | none => exact absurd (bind_of_none hbracket) h
  | some result => exact ⟨result.2, char_eq_some hbracket⟩

/-! ### Keys -/

theorem isValueChar_of_isKeyChar (h : isKeyChar c = true) : isValueChar c = true := by
  have hkey : ∀ c ∈ ['(', ')', '\t', '\n', ' '], isKeyChar c = false := by decide
  by_contra hvalue
  have hmem : c ∈ ['(', ')', '\t', '\n', ' '] :=
    of_not_not fun hnot ↦ hvalue (decide_eq_true hnot)
  rw [hkey c hmem] at h
  nomatch h

theorem key_append {name rest : Text} (hne : name ≠ []) (hname : ∀ c ∈ name, isKeyChar c = true)
    (hrest : ∀ c ∈ rest.head?, isKeyChar c = false) : key (name ++ rest) = some (name, rest) :=
  spanning1_append hne hname hrest

theorem quotedKey_append {name : Text} (hne : name ≠ [])
    (hname : ∀ c ∈ name, (isKeyChar c || c = ':') = true) (rest : Text) :
    quotedKey ('"' :: name ++ '"' :: rest) = some (name, rest) := by
  have hquote (s : Text) : char '"' ('"' :: s) = some ((), s) := rfl
  have hspan : spanning1 (fun c ↦ isKeyChar c || c = ':') (name ++ '"' :: rest) =
      some (name, '"' :: rest) :=
    spanning1_append hne hname fun c hc ↦ by
      rw [← Option.some.inj hc]
      rfl
  rw [quotedKey, List.cons_append, bind_of_some (hquote _), bind_of_some hspan,
    bind_of_some (hquote rest)]
  rfl

/-- How a key is written. -/
inductive Written : KeyNode → Text → Prop
  | key {name : Text} (hne : name ≠ []) (hname : ∀ c ∈ name, isKeyChar c = true) :
    Written (.key name) name
  | quotedKey {name : Text} (hne : name ≠ [])
    (hname : ∀ c ∈ name, (isKeyChar c || c = ':') = true) :
    Written (.quotedKey name) ('"' :: name ++ ['"'])

variable {node : KeyNode}

theorem written_of_searchKey (h : searchKey s = some (node, t)) :
    ∃ read, Written node read ∧ s = read ++ t := by
  rw [searchKey, orElse_apply, Option.or_eq_some_iff, map_apply, map_apply] at h
  rcases h with h | ⟨-, h⟩
  · obtain ⟨⟨name, rest⟩, hkey, heq⟩ := Option.map_eq_some_iff.mp h
    obtain ⟨rfl, rfl⟩ := Prod.mk.inj heq
    obtain ⟨hs, hne, hname⟩ := spanning1_eq_some hkey
    exact ⟨name, .key hne hname, hs⟩
  · obtain ⟨⟨name, rest⟩, hkey, heq⟩ := Option.map_eq_some_iff.mp h
    obtain ⟨rfl, rfl⟩ := Prod.mk.inj heq
    obtain ⟨_, left, hquote, hkey⟩ := bind_eq_some.mp hkey
    obtain ⟨name', left', hspan, hkey⟩ := bind_eq_some.mp hkey
    obtain ⟨_, left'', hquote', hpure⟩ := bind_eq_some.mp hkey
    obtain ⟨rfl, rfl⟩ := hpure
    obtain ⟨hleft, hne, hname⟩ := spanning1_eq_some hspan
    refine ⟨_, .quotedKey hne hname, ?_⟩
    rw [char_eq_some hquote, hleft, char_eq_some hquote']
    simp

variable {read : Text}

theorem searchKey_append (h : Written node read) (hrest : ∀ c ∈ rest.head?, isKeyChar c = false) :
    searchKey (read ++ rest) = some (node, rest) := by
  cases h with
  | key hne hname =>
    rw [searchKey, orElse_apply, map_apply, key_append hne hname hrest]
    rfl
  | @quotedKey name hne hname =>
    have hnone : key ('"' :: name ++ ['"'] ++ rest) = none := rfl
    rw [searchKey, orElse_apply, map_apply, map_apply, hnone, List.append_assoc,
      List.singleton_append, quotedKey_append hne hname]
    rfl

/-- How a key of text is written. -/
inductive WrittenText : TextKeyNode → Text → Prop
  | explicitTagKey {node : KeyNode} {read : Text} (h : Written node read) :
    WrittenText (.explicitTagKey node) ("tags[".toList ++ read ++ [']'])
  | searchKey {node : KeyNode} {read : Text} (h : Written node read) :
    WrittenText (.searchKey node) read

theorem written_of_textKey {node : TextKeyNode} (h : textKey k = some (node, [])) :
    WrittenText node k := by
  rw [textKey, orElse_apply, Option.or_eq_some_iff, map_apply, map_apply] at h
  rcases h with h | ⟨-, h⟩
  · obtain ⟨⟨key, rest⟩, hkey, heq⟩ := Option.map_eq_some_iff.mp h
    obtain ⟨rfl, rfl⟩ := Prod.mk.inj heq
    obtain ⟨_, afterTags, htags, hkey⟩ := bind_eq_some.mp hkey
    obtain ⟨_, afterOpen, hopen, hkey⟩ := bind_eq_some.mp hkey
    obtain ⟨key', afterKey, hread, hkey⟩ := bind_eq_some.mp hkey
    obtain ⟨_, afterClose, hclose, hpure⟩ := bind_eq_some.mp hkey
    obtain ⟨rfl, rfl⟩ := hpure
    obtain ⟨read, hwritten, hleft⟩ := written_of_searchKey hread
    have hk : k = "tags[".toList ++ read ++ [']'] := by
      rw [(literal_eq_some htags).2, char_eq_some hopen, hleft, char_eq_some hclose]
      simp
    exact hk ▸ .explicitTagKey hwritten
  · obtain ⟨⟨key, rest⟩, hkey, heq⟩ := Option.map_eq_some_iff.mp h
    obtain ⟨rfl, rfl⟩ := Prod.mk.inj heq
    obtain ⟨read, hwritten, hk⟩ := written_of_searchKey hkey
    rw [List.append_nil] at hk
    exact hk ▸ .searchKey hwritten

theorem not_tags_of_written (h : Written node read) (t u : Text) :
    read ++ ':' :: t ≠ "tags[".toList ++ u := by
  intro heq
  cases h with
  | key hne hname =>
    have hbracket : '[' ∉ read := by
      intro hmem
      have hkey := hname '[' hmem
      revert hkey
      decide
    rcases List.append_eq_append_iff.mp heq with ⟨more, hmore, hu⟩ | ⟨more, hmore, hu⟩
    · cases more with
      | nil =>
        rw [List.append_nil] at hmore
        exact hbracket (hmore ▸ by decide)
      | cons c more =>
        have hcolon : ':' ∈ "tags[".toList := by
          rw [hmore, (List.cons.inj hu).1]
          exact List.mem_append_right _ List.mem_cons_self
        revert hcolon
        decide
    · exact hbracket (hmore ▸ List.mem_append_left _ (by decide))
  | quotedKey hne hname =>
    have hhead : '"' = 't' := (List.cons.inj heq).1
    revert hhead
    decide

theorem char_cons (c : Char) (t : Text) : char c (c :: t) = some ((), t) :=
  bind_of_some (literal_append [c] t)

theorem searchKey_before (h : Written node read) (hc : isKeyChar c = false) (t : Text) :
    searchKey (read ++ c :: t) = some (node, c :: t) :=
  searchKey_append h fun _ hhead ↦ Option.some.inj hhead ▸ hc

theorem textKey_before {node : TextKeyNode} (h : WrittenText node k) (t : Text) :
    textKey (k ++ ':' :: t) = some (node, ':' :: t) := by
  cases h with
  | @explicitTagKey node read hread =>
    have hkey := searchKey_before hread (c := ']') rfl (':' :: t)
    have htags : literal ['t', 'a', 'g', 's'] ("tags[".toList ++ read ++ [']'] ++ ':' :: t) =
        some (['t', 'a', 'g', 's'], '[' :: (read ++ ']' :: ':' :: t)) := by
      have htext : "tags[".toList ++ read ++ [']'] ++ ':' :: t =
          ['t', 'a', 'g', 's'] ++ ('[' :: (read ++ ']' :: ':' :: t)) := by
        simp
      rw [htext, literal_append]
    rw [textKey, orElse_apply, map_apply, explicitTagKey, bind_of_some htags,
      bind_of_some (char_cons '[' _), bind_of_some hkey, bind_of_some (char_cons ']' _)]
    rfl
  | searchKey hread =>
    have htags : explicitTagKey (k ++ ':' :: t) = none := by
      by_contra hsome
      obtain ⟨⟨key, rest⟩, hkey⟩ := Option.ne_none_iff_exists'.mp hsome
      obtain ⟨_, afterTags, htags, hkey⟩ := bind_eq_some.mp hkey
      obtain ⟨_, afterOpen, hopen, -⟩ := bind_eq_some.mp hkey
      refine not_tags_of_written hread t afterOpen ?_
      rw [(literal_eq_some htags).2, char_eq_some hopen]
      simp
    rw [textKey, orElse_apply, map_apply, map_apply, htags, searchKey_before hread rfl]
    rfl

/-! ### Filters -/

def compared (value : Peg Char α) (node : Option Text → α → FilterNode) : Peg Char FilterNode := do
  let operator ← opt operator
  let value ← value
  return node operator value

theorem compared_of_some {value : Peg Char α} {node : Option Text → α → FilterNode}
    {operator w : Text} (h : Grammar.operator t = some (operator, w)) :
    compared value node t = (node (some operator) <$> value) w := by
  rw [compared, bind_of_some (opt_of_some h)]
  rfl

theorem compared_of_none {value : Peg Char α} {node : Option Text → α → FilterNode}
    (h : operator t = none) : compared value node t = (node none <$> value) t := by
  rw [compared, bind_of_some (opt_of_none h)]
  rfl

section Rules

variable {negated : Bool} {key : Peg Char κ} {value : Peg Char α}

theorem comparison_of_key {node : Bool → κ → Option Text → α → FilterNode} {read : κ}
    (hnegation : optNegation s = some (negated, w)) (hkey : key w = some (read, ':' :: t)) :
    comparison key value node s = compared value (node negated read) t := by
  have hsep : sep (':' :: t) = some ((), t) := rfl
  rw [comparison, bind_of_some hnegation, bind_of_some hkey, bind_of_some hsep]
  rfl

theorem comparison_of_no_key {node : Bool → κ → Option Text → α → FilterNode}
    (hnegation : optNegation s = some (negated, w))
    (hkey : ∀ read rest, key w = some (read, rest) → sep rest = none) :
    comparison key value node s = none := by
  rw [comparison, bind_of_some hnegation]
  cases hread : key w with
  | none => exact bind_of_none hread
  | some result =>
    rw [bind_of_some hread]
    exact bind_of_none (hkey _ _ hread)

theorem equality_of_key {node : Bool → κ → α → FilterNode} {read : κ}
    (hnegation : optNegation s = some (negated, w)) (hkey : key w = some (read, ':' :: t)) :
    equality key value node s = (node negated read <$> value) t := by
  have hsep : sep (':' :: t) = some ((), t) := rfl
  rw [equality, bind_of_some hnegation, bind_of_some hkey, bind_of_some hsep]
  rfl

theorem equality_of_no_key {node : Bool → κ → α → FilterNode}
    (hnegation : optNegation s = some (negated, w))
    (hkey : ∀ read rest, key w = some (read, rest) → sep rest = none) :
    equality key value node s = none := by
  rw [equality, bind_of_some hnegation]
  cases hread : key w with
  | none => exact bind_of_none hread
  | some result =>
    rw [bind_of_some hread]
    exact bind_of_none (hkey _ _ hread)

end Rules

def negationText (negated : Bool) : Text := if negated then ['!'] else []

theorem negation_eq_none {node : TextKeyNode} (h : WrittenText node k) (t : Text) :
    negation (k ++ t) = none := by
  have hliteral : literal ['!'] (k ++ t) = none := by
    rw [literal, if_neg]
    intro hprefix
    cases h with
    | explicitTagKey hread =>
      have hhead : '!' = 't' := (cons_prefix_cons.mp hprefix).1
      revert hhead
      decide
    | searchKey hread =>
      cases hread with
      | key hne hname =>
        obtain ⟨c, name, rfl⟩ := exists_cons_of_ne_nil hne
        have hkey := hname c mem_cons_self
        rw [← (cons_prefix_cons.mp hprefix).1] at hkey
        revert hkey
        decide
      | quotedKey hne hname =>
        have hhead : '!' = '"' := (List.cons_prefix_cons.mp hprefix).1
        revert hhead
        decide
  exact bind_of_none hliteral

theorem optNegation_append {node : TextKeyNode} (h : WrittenText node k) (negated : Bool)
    (t : Text) : optNegation (negationText negated ++ (k ++ t)) = some (negated, k ++ t) := by
  rw [optNegation, map_apply]
  cases negated with
  | true => rfl
  | false =>
    show (opt negation (k ++ t)).map _ = _
    rw [opt_of_none (negation_eq_none h t)]
    rfl

def dateFilters (key : KeyNode) : Peg Char FilterNode :=
  (do
    let operator ← operator
    let value ← iso8601DateFormat
    return .date key operator value) <|>
  (FilterNode.specificDate key <$> iso8601DateFormat) <|> (FilterNode.relDate key <$> relDateFormat)

def formFilters (negated : Bool) (key : KeyNode) : Peg Char FilterNode :=
  compared durationFormat (.duration negated key) <|> compared sizeFormat (.size negated key) <|>
    (FilterNode.boolean negated key <$> booleanValue) <|>
    (FilterNode.numericIn negated key <$> numericInList) <|>
    compared numericValue (.numeric negated key)

def textFilters (negated : Bool) (key : TextKeyNode) : Peg Char FilterNode :=
  (FilterNode.textIn negated key <$> textInList) <|> compared searchValue (.text negated key)

/-- Filters of the keys `has` and `is`. -/
def keywordFilters : Peg Char FilterNode := hasFilter <|> isFilter

theorem aggregateKey_of_written (h : Written node read) (t : Text) :
    aggregateKey (read ++ ':' :: t) = none := by
  cases h with
  | key hne hname =>
    have hkey : key (read ++ ':' :: t) = some (read, ':' :: t) :=
      key_append hne hname fun _ hhead ↦ Option.some.inj hhead ▸ rfl
    rw [aggregateKey, bind_of_some hkey]
    rfl
  | quotedKey hne hname => rfl

theorem dateFilters_of_key (h : Written node read) (negated : Bool) (t : Text) :
    (dateFilter <|> specificDateFilter <|> relDateFilter)
        (negationText negated ++ (read ++ ':' :: t)) =
      if negated then none else dateFilters node t := by
  cases negated with
  | true => rfl
  | false =>
    have hkey := searchKey_before h (c := ':') rfl t
    have hsep : sep (':' :: t) = some ((), t) := rfl
    show (dateFilter <|> specificDateFilter <|> relDateFilter) (read ++ ':' :: t) =
      dateFilters node t
    simp only [dateFilters, orElse_apply, dateFilter, specificDateFilter, relDateFilter,
      bind_of_some hkey, bind_of_some hsep]
    rfl

theorem filter_of_searchKey (h : Written node read) (negated : Bool) (t : Text) :
    filter (negationText negated ++ (read ++ ':' :: t)) =
      (if negated then none else dateFilters node t).or ((formFilters negated node t).or
        ((keywordFilters (negationText negated ++ (read ++ ':' :: t))).or
          (textFilters negated (.searchKey node) t))) := by
  have hnegation := optNegation_append (.searchKey h) negated (':' :: t)
  have hkey := searchKey_before h (c := ':') rfl t
  have htext := textKey_before (.searchKey h) t
  have haggregate : ∀ read' rest, aggregateKey (read ++ ':' :: t) = some (read', rest) →
      sep rest = none := by
    intro read' rest hread
    rw [aggregateKey_of_written h] at hread
    nomatch hread
  have hdates := dateFilters_of_key h negated t
  rw [← hdates]
  simp only [filter, formFilters, keywordFilters, textFilters, orElse_apply, durationFilter,
    sizeFilter, booleanFilter, numericInFilter, numericFilter, aggregateDurationFilter,
    aggregatePercentageFilter, aggregateNumericFilter, aggregateSizeFilter, aggregateDateFilter,
    aggregateRelDateFilter, textInFilter, textFilter, comparison_of_key hnegation hkey,
    equality_of_key hnegation hkey, comparison_of_no_key hnegation haggregate,
    comparison_of_key hnegation htext, equality_of_key hnegation htext, Option.none_or,
    Option.or_assoc]

theorem filter_of_explicitTagKey (h : Written node read) (negated : Bool) (t : Text) :
    filter (negationText negated ++ ("tags[".toList ++ read ++ [']'] ++ ':' :: t)) =
      textFilters negated (.explicitTagKey node) t := by
  have hwritten := WrittenText.explicitTagKey h
  have hnegation := optNegation_append hwritten negated (':' :: t)
  have htext := textKey_before hwritten t
  have htags : "tags[".toList ++ read ++ [']'] ++ ':' :: t =
      't' :: 'a' :: 'g' :: 's' :: '[' :: (read ++ ']' :: ':' :: t) := by
    simp
  have hkey : ∀ read' rest, searchKey ("tags[".toList ++ read ++ [']'] ++ ':' :: t) =
      some (read', rest) → sep rest = none := by
    intro read' rest hread
    rw [htags] at hread
    have hsearch : searchKey ('t' :: 'a' :: 'g' :: 's' :: '[' :: (read ++ ']' :: ':' :: t)) =
        some (.key ['t', 'a', 'g', 's'], '[' :: (read ++ ']' :: ':' :: t)) := rfl
    rw [hsearch, Option.some.injEq, Prod.mk.injEq] at hread
    rw [← hread.2]
    rfl
  have haggregate : ∀ read' rest, aggregateKey ("tags[".toList ++ read ++ [']'] ++ ':' :: t) =
      some (read', rest) → sep rest = none := by
    intro read' rest hread
    nomatch hread
  have hdates : (dateFilter <|> specificDateFilter <|> relDateFilter)
      (negationText negated ++ ("tags[".toList ++ read ++ [']'] ++ ':' :: t)) = none := by
    cases negated with
    | true => rfl
    | false => rfl
  have hkeywords : keywordFilters
      (negationText negated ++ ("tags[".toList ++ read ++ [']'] ++ ':' :: t)) = none := by
    cases negated with
    | true => rfl
    | false => rfl
  simp only [orElse_apply, keywordFilters, Option.or_eq_none_iff] at hdates hkeywords
  simp only [filter, textFilters, orElse_apply, durationFilter,
    sizeFilter, booleanFilter, numericInFilter, numericFilter, aggregateDurationFilter,
    aggregatePercentageFilter, aggregateNumericFilter, aggregateSizeFilter, aggregateDateFilter,
    aggregateRelDateFilter, textInFilter, textFilter, comparison_of_no_key hnegation hkey,
    equality_of_no_key hnegation hkey, comparison_of_no_key hnegation haggregate,
    comparison_of_key hnegation htext, equality_of_key hnegation htext, Option.none_or,
    hdates.1, hdates.2.1, hdates.2.2, hkeywords.1, hkeywords.2]

theorem eq_of_literal_colon {word name : Text} (hword : ∀ c ∈ word, isKeyChar c = true)
    (hname : ∀ c ∈ name, isKeyChar c = true) (h : word ++ [':'] <+: name ++ ':' :: t) :
    name = word := by
  obtain ⟨more, hmore⟩ := h
  have htake (read rest : Text) (hread : ∀ c ∈ read, isKeyChar c = true) :
      spanning isKeyChar (read ++ ':' :: rest) = some (read, ':' :: rest) :=
    spanning_append hread fun _ hhead ↦ Option.some.inj hhead ▸ rfl
  have heq := htake word more hword
  rw [List.append_assoc] at hmore
  rw [← List.singleton_append, hmore, htake name t hname, Option.some.injEq, Prod.mk.injEq] at heq
  exact heq.1

theorem ahead_literal_eq_none (word : Text) (h : Written node read)
    (hword : ∀ c ∈ word, isKeyChar c = true) (hne : word ≠ []) (hnode : node ≠ .key word) :
    ahead (literal (word ++ [':'])) (read ++ ':' :: t) = none := by
  refine ahead_of_none ?_
  rw [literal, if_neg]
  intro hprefix
  cases h with
  | key hne hname => exact hnode (congrArg KeyNode.key (eq_of_literal_colon hword hname hprefix))
  | quotedKey _ hname =>
    obtain ⟨c, word, rfl⟩ := List.exists_cons_of_ne_nil hne
    have hquote := hword c List.mem_cons_self
    rw [(List.cons_prefix_cons.mp hprefix).1] at hquote
    revert hquote
    decide

theorem keywordFilters_eq_none (h : Written node read)
    (hhas : node ≠ .key "has".toList) (his : node ≠ .key "is".toList) (negated : Bool) (t : Text) :
    keywordFilters (negationText negated ++ (read ++ ':' :: t)) = none := by
  have hnegation := optNegation_append (.searchKey h) negated (':' :: t)
  have hahead : ahead (literal ['h', 'a', 's', ':']) (read ++ ':' :: t) = none :=
    ahead_literal_eq_none "has".toList h (by decide) (by decide) hhas
  have hahead' : ahead (literal ['i', 's', ':']) (read ++ ':' :: t) = none :=
    ahead_literal_eq_none "is".toList h (by decide) (by decide) his
  rw [keywordFilters, orElse_apply, hasFilter, isFilter, bind_of_some hnegation,
    bind_of_some hnegation, bind_of_none hahead, bind_of_none hahead']
  rfl

/-- After `has:!=` and `is:!=` there is a value, and no key. -/
theorem keywordFilters_has (v : Text) : keywordFilters ("has:!=".toList ++ v) =
    some (.has false (.inr (.value ('!' :: '=' :: v.takeWhile isValueChar))),
      v.dropWhile isValueChar) := rfl

theorem keywordFilters_is (v : Text) : keywordFilters ("is:!=".toList ++ v) =
    some (.is false (.value ('!' :: '=' :: v.takeWhile isValueChar)),
      v.dropWhile isValueChar) := rfl

/-! ### Terms -/

theorem booleanOperator_eq_none (hs : ∀ c ∈ s, isValueChar c = true) (hcolon : ':' ∈ s) :
    booleanOperator s = none := by
  have hword (letters : Text) (hletters : ∀ letter ∈ letters,
      letter ∉ ['"', '\\', '=', '!', '<', '>', ':']) : (do
        let operator ← wordIgnoringCase [letters]
        ahead endValue
        return operator : Peg Char Text) s = none := by
    by_contra hsome
    obtain ⟨⟨operator, rest⟩, h⟩ := Option.ne_none_iff_exists'.mp hsome
    have hreads : Reads (fun c ↦ c ≠ ':') (wordIgnoringCase [letters]) := by
      refine reads_wordIgnoringCase fun word hword letter hletter c hsame hc ↦ ?_
      rw [mem_singleton.mp hword] at hletter
      subst hc
      rw [not_sameLetter (by decide) (hletters letter hletter)] at hsame
      nomatch hsame
    obtain ⟨read, hsplit, hread⟩ :=
      (hreads.bind fun _ ↦ reads_ahead.bind fun _ ↦ reads_pure _) h
    have hends : EndsValue rest :=
      (Ends.bind fun _ ↦ ends_endValue.map fun _ ↦ _) h
    have hrest := hends.eq_nil fun c hc ↦ hs c (hsplit ▸ mem_append_right _ hc)
    rw [hrest, append_nil] at hsplit
    exact hread ':' (hsplit ▸ hcolon) rfl
  rw [booleanOperator, orElse_apply, hword ['o', 'r'] (by decide),
    hword ['a', 'n', 'd'] (by decide)]
  rfl

theorem parenGroup_eq_none {e : Peg Char TermNode} (hs : ∀ c ∈ s, isValueChar c = true) :
    parenGroup e s = none := by
  have hchar : char '(' s = none := by
    by_contra hsome
    obtain ⟨⟨_, rest⟩, h⟩ := Option.ne_none_iff_exists'.mp hsome
    have hparen := hs '(' (char_eq_some h ▸ mem_cons_self)
    revert hparen
    decide
  rw [parenGroup, bind_of_none hchar]

theorem term_of_filter (hs : ∀ c ∈ s, isValueChar c = true) (hcolon : ':' ∈ s)
    {node : FilterNode} (h : filter s = some (node, rest)) (depth : ℕ) :
    term (depth + 1) s = some (.filter node, rest.dropWhile (· = ' ')) := by
  have halternatives : ((TermNode.booleanOperator <$> booleanOperator) <|>
      parenGroup (term depth) <|> (TermNode.filter <$> filter) <|>
      (TermNode.freeText <$> fun s ↦ freeText (s.length + 1) s)) s = some (.filter node, rest) := by
    rw [orElse_apply, orElse_apply, orElse_apply, map_apply, map_apply,
      booleanOperator_eq_none hs hcolon, parenGroup_eq_none hs, h]
    rfl
  rw [term, bind_of_some halternatives]
  rfl

theorem terms_of_filter (hs : ∀ c ∈ s, isValueChar c = true) (hcolon : ':' ∈ s)
    {node : FilterNode} (h : filter s = some (node, rest)) (depth : ℕ) :
    ∃ most, (do let _ ← spaces; star (term (depth + 1)) : Peg Char (List TermNode)) s =
      some (.filter node :: (manyWithin (term (depth + 1)) most
          (rest.dropWhile (· = ' '))).1,
        (manyWithin (term (depth + 1)) most (rest.dropWhile (· = ' '))).2) := by
  obtain ⟨c, s, rfl⟩ := exists_cons_of_ne_nil (ne_nil_of_mem hcolon)
  have hspaces : spaces (c :: s) = some ([], c :: s) := by
    have hc : c ≠ ' ' := by
      rintro rfl
      have hspace := hs ' ' mem_cons_self
      revert hspace
      decide
    exact spanning_append (fun _ hmem ↦ absurd hmem not_mem_nil)
      fun _ hhead ↦ decide_eq_false (Option.some.inj hhead ▸ hc)
  refine ⟨s.length, ?_⟩
  rw [bind_of_some hspaces]
  show some (manyWithin (term (depth + 1)) (s.length + 1) (c :: s)) = _
  rw [manyWithin_of_some (term_of_filter hs hcolon h depth)]

theorem search_of_filter (hs : ∀ c ∈ s, isValueChar c = true) (hcolon : ':' ∈ s)
    {node : FilterNode} (h : filter s = some (node, rest)) {terms : List TermNode}
    (hterms : search s = some terms) : ∃ others, terms = .filter node :: others := by
  obtain ⟨most, hmany⟩ := terms_of_filter hs hcolon h s.length
  rw [search, hmany] at hterms
  split at hterms
  next values heq =>
    rw [Option.some.injEq, Prod.mk.injEq] at heq
    exact ⟨_, (Option.some.inj hterms).symm.trans heq.1.symm⟩
  next => nomatch hterms

theorem search_of_filter_nil (hs : ∀ c ∈ s, isValueChar c = true) (hcolon : ':' ∈ s)
    {node : FilterNode} (h : filter s = some (node, [])) : search s = some [.filter node] := by
  obtain ⟨most, hmany⟩ := terms_of_filter hs hcolon h s.length
  have hnone : term (s.length + 1) [] = none := rfl
  rw [dropWhile_nil, manyWithin_of_none hnone] at hmany
  rw [search, hmany]

end Sentry.EventSearch.Grammar
