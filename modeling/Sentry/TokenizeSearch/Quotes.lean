import Sentry.TokenizeSearch.WordBreaks

/-!
# Quotes in texts

What `escapeDoubleQuotes`, `removeSurroundingQuotes` and `formatQuery` do to a text. A text in
double quotes with its double quotes escaped is read to its end without leaving the quotes
(`quote_pushAll_escapeDoubleQuotes`).
-/

namespace Sentry.TokenizeSearch

open Library List

theorem escapeDoubleQuotes_ne_nil {value : Str} (h : value ≠ []) :
    escapeDoubleQuotes value ≠ [] := by
  fun_cases escapeDoubleQuotes value <;> simp_all

theorem head?_escapeDoubleQuotes_ne (value : Str) :
    (escapeDoubleQuotes value).head? ≠ some doubleQuote := by
  have hne : backslash ≠ doubleQuote := by decide
  fun_cases escapeDoubleQuotes value <;> simp_all

theorem head?_escapeDoubleQuotes {value : Str} (h : value.head? ≠ some doubleQuote) :
    (escapeDoubleQuotes value).head? = value.head? := by
  fun_cases escapeDoubleQuotes value <;> simp_all

theorem getLast?_escapeDoubleQuotes (value : Str) :
    (escapeDoubleQuotes value).getLast? = value.getLast? := by
  fun_induction escapeDoubleQuotes value with
  | case1 | case2 | case3 => rfl
  | case4 next rest ih => simp [getLast?_cons, ih]
  | case5 next rest hquote ih => simp [getLast?_cons, ih]
  | case6 char next rest hchar hquote ih => simp [getLast?_cons, ih]

theorem length_le_length_escapeDoubleQuotes (value : Str) :
    value.length ≤ (escapeDoubleQuotes value).length := by
  fun_induction escapeDoubleQuotes value with
  | case1 | case3 => exact Nat.le_refl _
  | case2 => exact Nat.le_succ 1
  | case4 next rest ih => exact Nat.add_le_add_right ih 2
  | case5 next rest hquote ih => exact Nat.le_succ_of_le (Nat.succ_le_succ ih)
  | case6 char next rest hchar hquote ih => exact Nat.succ_le_succ ih

theorem escapeDoubleQuotes_eq_of_prefix {value : Str} (h : value <+: escapeDoubleQuotes value) :
    escapeDoubleQuotes value = value := by
  fun_induction escapeDoubleQuotes value with
  | case1 | case3 => rfl
  | case2 | case5 => simp [doubleQuote, backslash] at h
  | case4 next rest ih =>
    simp only [cons_prefix_cons, true_and] at h
    rw [ih h]
  | case6 char next rest hchar hquote ih =>
    rw [cons_prefix_cons] at h
    rw [ih h.2]

theorem getLast?_dropLast_escapeDoubleQuotes {value : Str}
    (h : (escapeDoubleQuotes value).getLast? = some doubleQuote) :
    (escapeDoubleQuotes value).dropLast.getLast? = some backslash := by
  fun_induction escapeDoubleQuotes value with
  | case1 => cases h
  | case2 => rfl
  | case3 char hchar => simp [hchar] at h
  | case4 next rest ih =>
    by_cases hrest : rest = []
    · rw [hrest]
      rfl
    · have hne := escapeDoubleQuotes_ne_nil hrest
      rw [getLast?_cons_of_ne_nil (cons_ne_nil _ _), getLast?_cons_of_ne_nil hne] at h
      rw [dropLast_cons_of_ne_nil (cons_ne_nil _ _), dropLast_cons_of_ne_nil hne]
      simp [getLast?_cons, ih h]
  | case5 next rest hquote ih =>
    have hne := escapeDoubleQuotes_ne_nil (cons_ne_nil next rest)
    rw [getLast?_cons_of_ne_nil (cons_ne_nil _ _), getLast?_cons_of_ne_nil hne] at h
    rw [dropLast_cons_of_ne_nil (cons_ne_nil _ _), dropLast_cons_of_ne_nil hne]
    simp [getLast?_cons, ih h]
  | case6 char next rest hchar hquote ih =>
    have hne := escapeDoubleQuotes_ne_nil (cons_ne_nil next rest)
    rw [getLast?_cons_of_ne_nil hne] at h
    rw [dropLast_cons_of_ne_nil hne]
    simp [getLast?_cons, ih h]

namespace OpenWord

theorem quote_pushAll_escapeDoubleQuotes {word : OpenWord} (h : word.quote = some doubleQuote)
    (value : Str) : (word.pushAll (escapeDoubleQuotes value)).quote = some doubleQuote ∧
      word.unbroken (escapeDoubleQuotes value) = true := by
  have hopen {word : OpenWord} (h : word.quote = some doubleQuote) : word.closed = false := by
    unfold closed
    rw [h]
    rfl
  have hstay {word : OpenWord} (h : word.quote = some doubleQuote) {char : CodeUnit}
      (hchar : char = doubleQuote → word.text.getLast? = some backslash) :
      (word.push char).quote = some doubleQuote := by
    show word.quoteAfter char = _
    unfold quoteAfter
    rw [h]
    exact if_neg fun hand ↦ hand.2 (hchar hand.1)
  have hcons {word : OpenWord} (h : word.quote = some doubleQuote) (char : CodeUnit) (rest : Str) :
      word.unbroken (char :: rest) = (word.push char).unbroken rest := by
    rw [unbroken, hopen h, Bool.and_false, Bool.not_false, Bool.true_and]
  have hbackslash {word : OpenWord} (h : word.quote = some doubleQuote) :
      (word.push backslash).quote = some doubleQuote :=
    hstay h fun hchar ↦ by cases hchar
  have hnext {word : OpenWord} (h : word.quote = some doubleQuote) (next : CodeUnit) :
      ((word.push backslash).push next).quote = some doubleQuote :=
    hstay (hbackslash h) fun _ ↦ getLast?_concat
  fun_induction escapeDoubleQuotes value generalizing word with
  | case1 => exact ⟨h, rfl⟩
  | case2 =>
    refine ⟨hnext h doubleQuote, ?_⟩
    rfl
  | case3 char hchar =>
    refine ⟨hstay h fun heq ↦ absurd heq hchar, ?_⟩
    rw [hcons h]
    rfl
  | case4 next rest ih =>
    rw [pushAll_cons, pushAll_cons, hcons h, hcons (hbackslash h)]
    exact ih (hnext h next)
  | case5 next rest hquote ih =>
    exact ih (hnext h doubleQuote)
  | case6 char next rest hchar hquote ih =>
    rw [pushAll_cons, hcons h]
    exact ih (hstay h fun heq ↦ absurd heq hquote)

end OpenWord

theorem skipLeft_eq (length left : ℕ) (text : Str) : ∃ n, skipLeft length left text = left + n ∧
    ∀ char ∈ text.take n, char = doubleQuote := by
  induction text generalizing left with
  | nil => exact ⟨0, rfl, fun _ hchar ↦ by cases hchar⟩
  | cons char rest ih =>
    rw [skipLeft]
    split_ifs with hskip
    · obtain ⟨n, hn, hquotes⟩ := ih (left + 1)
      refine ⟨n + 1, by omega, fun other hother ↦ ?_⟩
      rcases mem_cons.mp hother with heq | hmem
      · rw [heq, hskip.2]
      · exact hquotes other hmem
    · exact ⟨0, rfl, fun _ hchar ↦ by cases hchar⟩

theorem skipRight_eq (length stop : ℕ) (text : Str) : ∃ n, skipRight length stop text = stop - n ∧
    ∀ char ∈ text.take n, char = doubleQuote := by
  induction text generalizing stop with
  | nil => exact ⟨0, rfl, fun _ hchar ↦ by cases hchar⟩
  | cons char rest ih =>
    rw [skipRight]
    split_ifs with hskip
    · obtain ⟨n, hn, hquotes⟩ := ih (stop - 1)
      refine ⟨n + 1, by omega, fun other hother ↦ ?_⟩
      rcases mem_cons.mp hother with heq | hmem
      · rw [heq, hskip.2.1]
      · exact hquotes other hmem
    · exact ⟨0, rfl, fun _ hchar ↦ by cases hchar⟩

theorem countP_removeSurroundingQuotes (text : Str) :
    (removeSurroundingQuotes text).countP (· ≠ doubleQuote) = text.countP (· ≠ doubleQuote) := by
  have hzero {part : Str} (h : ∀ char ∈ part, char = doubleQuote) :
      part.countP (· ≠ doubleQuote) = 0 :=
    countP_eq_zero.mpr fun char hchar ↦ by simp [h char hchar]
  obtain ⟨left, hleft, hleftQuotes⟩ := skipLeft_eq text.length 0 text
  obtain ⟨right, hright, hrightQuotes⟩ := skipRight_eq text.length text.length text.reverse
  unfold removeSurroundingQuotes
  dsimp only
  split_ifs
  · rfl
  rw [hleft, hright, Nat.zero_add]
  have hstop : (text.drop (text.length - right)).countP (· ≠ doubleQuote) = 0 := by
    refine hzero fun char hchar ↦ hrightQuotes char ?_
    rw [take_reverse]
    exact mem_reverse.mpr hchar
  have hstart : ((text.take (text.length - right)).take left).countP (· ≠ doubleQuote) = 0 := by
    refine hzero fun char hchar ↦ hleftQuotes char ?_
    rw [take_take, Nat.min_comm, ← take_take] at hchar
    exact mem_of_mem_take hchar
  conv_rhs => rw [← take_append_drop (text.length - right) text, countP_append, hstop,
    ← take_append_drop left (text.take (text.length - right)), countP_append, hstart]
  rw [Nat.zero_add, Nat.add_zero]

variable {text : Str}

theorem skipLeft_of_head?_ne (h : text.head? ≠ some doubleQuote) (length left : ℕ) :
    skipLeft length left text = left := by
  cases text with
  | nil => rfl
  | cons char rest => exact if_neg fun hand ↦ h (congrArg some hand.2)

theorem removeSurroundingQuotes_prefix (h : text.head? ≠ some doubleQuote) :
    removeSurroundingQuotes text <+: text := by
  unfold removeSurroundingQuotes
  dsimp only
  split_ifs
  · exact prefix_refl text
  · rw [skipLeft_of_head?_ne h, drop_zero]
    exact take_prefix _ _

theorem removeSurroundingQuotes_cons (hne : text ≠ []) (h : text.head? ≠ some doubleQuote) :
    removeSurroundingQuotes (doubleQuote :: text) =
      text.take (skipRight (text.length + 1) (text.length + 1) (text.reverse ++ [doubleQuote]) - 1)
    := by
  have hpos := length_pos_of_ne_nil hne
  have hleft : skipLeft (text.length + 1) 0 (doubleQuote :: text) = 1 := by
    rw [skipLeft, if_pos ⟨by omega, rfl⟩, skipLeft_of_head?_ne h]
  unfold removeSurroundingQuotes
  rw [length_cons, if_neg (by omega), hleft, reverse_cons]
  cases skipRight (text.length + 1) (text.length + 1) (text.reverse ++ [doubleQuote]) with
  | zero => rfl
  | succ stop => rfl

theorem removeSurroundingQuotes_cons_prefix (hne : text ≠ []) (h : text.head? ≠ some doubleQuote) :
    removeSurroundingQuotes (doubleQuote :: text) <+: text := by
  rw [removeSurroundingQuotes_cons hne h]
  exact take_prefix _ _

theorem skipRight_of_head?_ne (h : text.head? ≠ some doubleQuote)
    (length stop : ℕ) : skipRight length stop text = stop := by
  cases text with
  | nil => rfl
  | cons char rest => exact if_neg fun hand ↦ h (congrArg some hand.2.1)

section Quoted

variable {value : Str} (hne : value ≠ []) (hhead : value.head? ≠ some doubleQuote)
include hne hhead

theorem removeSurroundingQuotes_inQuotes :
    removeSurroundingQuotes (doubleQuote :: value ++ [doubleQuote]) =
      (value ++ [doubleQuote]).take (skipRight (value.length + 2) (value.length + 2)
        (doubleQuote :: (value.reverse ++ [doubleQuote])) - 1) := by
  have happend : (value ++ [doubleQuote]).head? ≠ some doubleQuote := by
    rw [head?_append_of_ne_nil _ hne]
    exact hhead
  rw [cons_append, removeSurroundingQuotes_cons (by simp) happend, length_append, reverse_append]
  rfl

theorem removeSurroundingQuotes_quoted (hlast : value.getLast? ≠ some backslash)
    (hquote : value.getLast? = some doubleQuote → value.dropLast.getLast? = some backslash) :
    removeSurroundingQuotes (doubleQuote :: value ++ [doubleQuote]) = value := by
  rw [removeSurroundingQuotes_inQuotes hne hhead]
  obtain hnil | ⟨before, last, hvalue⟩ := eq_nil_or_concat value
  · exact absurd hnil hne
  rw [concat_eq_append] at hvalue
  rw [hvalue, getLast?_concat] at hlast
  rw [hvalue, getLast?_concat, dropLast_concat] at hquote
  have hreverse : value.reverse ++ [doubleQuote] = last :: (before.reverse ++ [doubleQuote]) := by
    rw [hvalue, reverse_append]
    rfl
  have hstay : ¬ (value.length + 2 ≤ 2 * (value.length + 2 - 1 - 1) ∧ last = doubleQuote ∧
      (before.reverse ++ [doubleQuote]).head? ≠ some backslash) := by
    intro ⟨_, hlast, hhead⟩
    have hbefore : before.getLast? = some backslash := hquote (congrArg some hlast)
    rw [head?_append, head?_reverse, hbefore] at hhead
    exact hhead rfl
  rw [skipRight, hreverse, if_pos ⟨by omega, rfl, hlast⟩, skipRight, if_neg hstay]
  exact take_left

theorem removeSurroundingQuotes_escaped (hlast : value.getLast? = some backslash) :
    removeSurroundingQuotes (doubleQuote :: value ++ [doubleQuote]) = value ++ [doubleQuote] := by
  have hstay : (value.reverse ++ [doubleQuote]).head? = some backslash := by
    rw [head?_append, head?_reverse, hlast]
    rfl
  rw [removeSurroundingQuotes_inQuotes hne hhead, skipRight, if_neg fun hand ↦ hand.2.2 hstay]
  exact take_of_length_le (by simp)

end Quoted

theorem removeSurroundingQuotes_eq_self (h : doubleQuote ∉ text) :
    removeSurroundingQuotes text = text := by
  have hhead {part : Str} (hpart : ∀ char ∈ part, char ∈ text) :
      part.head? ≠ some doubleQuote := fun heq ↦ h (hpart _ (mem_of_head? heq))
  unfold removeSurroundingQuotes
  dsimp only
  split_ifs
  · rfl
  · rw [skipLeft_of_head?_ne (hhead fun _ hchar ↦ hchar),
      skipRight_of_head?_ne (hhead fun _ hchar ↦ mem_reverse.mp hchar), drop_zero, take_length]

/-- A text that `formatQuery` does not make shorter. -/
structure Bare (text : Str) : Prop where
  ne_nil : text ≠ []
  head : ∀ char ∈ text.head?, (char = doubleQuote || char = openParen) = false
  last : ∀ char ∈ text.getLast?, (char = doubleQuote || char = closeParen) = false

theorem bare_formatQuery (h : formatQuery text ≠ []) : Bare (formatQuery text) :=
  ⟨h, fun _ ↦ not_head_dropWhile_rdropWhile, fun _ ↦ not_getLast_rdropWhile⟩

/-- `formatQuery` of a text with quotes and parentheses around it. -/
theorem formatQuery_append {before text : Str}
    (hbefore : ∀ char ∈ before, (char = doubleQuote || char = openParen) = true) (h : Bare text)
    (after : Str) : formatQuery (before ++ text ++ after) =
      text ++ after.rdropWhile fun char ↦ char = doubleQuote || char = closeParen := by
  have hdrop (rest : Str) :
      (text ++ rest).dropWhile (fun char ↦ char = doubleQuote || char = openParen) =
        text ++ rest := by
    cases htext : text with
    | nil => exact absurd htext h.ne_nil
    | cons char text =>
      exact dropWhile_cons_of_neg (by simp [h.head char (by rw [htext]; rfl)])
  unfold formatQuery
  rw [append_assoc, dropWhile_append_of_pos hbefore, hdrop]
  by_cases hafter : after.rdropWhile (fun char ↦ char = doubleQuote || char = closeParen) = []
  · rw [hafter, append_nil, rdropWhile_append_of_all _ (rdropWhile_eq_nil_iff.mp hafter),
      rdropWhile_eq_self_iff]
    intro hne
    rw [h.last _ (getLast?_eq_getLast_of_ne_nil hne)]
    exact Bool.false_ne_true
  · exact rdropWhile_append_of_ne_nil text hafter

end Sentry.TokenizeSearch
