import Sentry.EventSearch.Wildcards

/-!
# The scan for wildcards

A value is a list of characters and escaped characters (`tokens`). The scan finds the asterisks that
are not escaped (`findWildcards_eq`), so that a value which is tested for a prefix, a suffix or an
infix has them at its ends and nowhere else (`eq_surround`).
-/

namespace Sentry.EventSearch

open List
open Library Library.Regex

variable {value : List Char} {pieces : List Regex.Token}

def pieceText : Regex.Token → List Char
  | .bare c => [c]
  | .escaped c => ['\\', c]

def pieceChar : Regex.Token → Char
  | .bare c => c
  | .escaped c => c

theorem flatMap_pieceText_tokens (value : List Char) :
    (tokens value).flatMap pieceText = value := by
  fun_induction tokens value with
  | case1 => rfl
  | case2 => rfl
  | case3 d rest ih =>
    rw [flatMap_cons, ih]
    rfl
  | case4 c d rest h ih =>
    rw [flatMap_cons, ih]
    rfl

/-- No backslash that does not escape is followed by something. -/
def Sound : List Regex.Token → Prop
  | [] => True
  | [_] => True
  | piece :: next :: rest => piece ≠ .bare '\\' ∧ Sound (next :: rest)

theorem sound_cons {piece : Regex.Token} (h : Sound (piece :: pieces)) : Sound pieces := by
  cases pieces with
  | nil => trivial
  | cons next rest => exact h.2

theorem sound_tokens (value : List Char) : Sound (tokens value) := by
  fun_induction tokens value with
  | case1 => trivial
  | case2 => trivial
  | case3 d rest ih =>
    cases hrest : tokens rest with
    | nil => trivial
    | cons next pieces =>
      rw [hrest] at ih
      exact ⟨by simp, ih⟩
  | case4 c d rest h ih =>
    cases hrest : tokens (d :: rest) with
    | nil => trivial
    | cons next pieces =>
      rw [hrest] at ih
      exact ⟨by simpa using h, ih⟩

theorem sound_of_append {pieces rest : List Regex.Token} (h : Sound (pieces ++ rest)) :
    Sound pieces := by
  induction pieces with
  | nil => trivial
  | cons piece pieces ih =>
    cases pieces with
    | nil => trivial
    | cons next pieces => exact ⟨h.1, ih h.2⟩

theorem eq_nil_of_sound (h : Sound (.bare '\\' :: pieces)) : pieces = [] := by
  cases pieces with
  | nil => rfl
  | cons next rest => exact absurd rfl h.1

def starSpans : ℕ → ℕ → List Regex.Token → List (ℕ × ℕ)
  | _, _, [] => []
  | position, backslashes, .bare c :: rest =>
    (if c = '*' then [(position - backslashes, position + 1)] else []) ++
      starSpans (position + 1) 0 rest
  | position, backslashes, .escaped c :: rest =>
    starSpans (position + 2) (if c = '\\' then backslashes + 2 else 0) rest

variable {position backslashes : ℕ}

theorem wildcardSpans_eq (heven : backslashes % 2 = 0) (h : Sound pieces) :
    wildcardSpans position backslashes (pieces.flatMap pieceText) =
      starSpans position backslashes pieces := by
  induction pieces generalizing position backslashes with
  | nil => rfl
  | cons piece pieces ih =>
    have hpieces := sound_cons h
    rw [flatMap_cons]
    cases piece with
    | bare c =>
      rw [pieceText, singleton_append, wildcardSpans, starSpans]
      by_cases hstar : c = '*'
      · rw [if_pos hstar, if_pos heven, if_pos hstar, ih rfl hpieces]
      · rw [if_neg hstar, if_neg hstar, nil_append]
        by_cases hbackslash : c = '\\'
        · rw [hbackslash] at h
          rw [eq_nil_of_sound h]
          rfl
        · rw [if_neg hbackslash, ih rfl hpieces]
    | escaped c =>
      have hodd : (backslashes + 1) % 2 ≠ 0 := by omega
      rw [pieceText, cons_append, singleton_append, wildcardSpans,
        if_neg (by decide), if_pos rfl, wildcardSpans, starSpans]
      by_cases hstar : c = '*'
      · rw [if_pos hstar, if_neg hodd, if_neg (by simp [hstar]), nil_append, ih rfl hpieces]
      · rw [if_neg hstar]
        by_cases hbackslash : c = '\\'
        · rw [if_pos hbackslash, ih (by omega) hpieces]
        · rw [if_neg hbackslash, ih rfl hpieces]

theorem findWildcards_eq (value : List Char) :
    findWildcards value = starSpans 0 0 (tokens value) := by
  rw [← wildcardSpans_eq rfl (sound_tokens value), flatMap_pieceText_tokens]
  rfl

def piecesLength (pieces : List Regex.Token) : ℕ := (pieces.flatMap pieceText).length

theorem piecesLength_cons (piece : Regex.Token) (pieces : List Regex.Token) :
    piecesLength (piece :: pieces) = (pieceText piece).length + piecesLength pieces := by
  rw [piecesLength, flatMap_cons, length_append]
  rfl

theorem eq_nil_of_piecesLength (h : piecesLength pieces = 0) : pieces = [] := by
  cases pieces with
  | nil => rfl
  | cons piece pieces =>
    rw [piecesLength_cons] at h
    cases piece with
    | bare | escaped => simp [pieceText] at h

theorem starSpans_cons {piece : Regex.Token} (hstar : piece ≠ .bare '*') (pieces : List Regex.Token)
    (position backslashes : ℕ) :
    ∃ backslashes', starSpans position backslashes (piece :: pieces) =
      starSpans (position + (pieceText piece).length) backslashes' pieces := by
  cases piece with
  | bare c =>
    refine ⟨0, ?_⟩
    rw [starSpans, if_neg fun heq ↦ hstar (by rw [heq])]
    rfl
  | escaped c => exact ⟨_, rfl⟩

variable {span : ℕ × ℕ}

theorem lt_of_mem_starSpans
    (h : span ∈ starSpans position backslashes pieces) : position < span.2 := by
  induction pieces generalizing position backslashes with
  | nil => exact absurd h not_mem_nil
  | cons piece pieces ih =>
    by_cases hstar : piece = .bare '*'
    · rw [hstar, starSpans, if_pos rfl] at h
      rcases mem_cons.mp h with rfl | hrest
      · exact Nat.lt_succ_self position
      · exact (Nat.lt_succ_self position).trans (ih hrest)
    · obtain ⟨backslashes', hspans⟩ := starSpans_cons hstar pieces position backslashes
      rw [hspans] at h
      exact lt_of_le_of_lt (Nat.le_add_right _ _) (ih h)

theorem starSpans_eq_nil_iff : starSpans position backslashes pieces = [] ↔ .bare '*' ∉ pieces := by
  induction pieces generalizing position backslashes with
  | nil => simp [starSpans]
  | cons piece pieces ih =>
    by_cases hstar : piece = .bare '*'
    · simp [hstar, starSpans]
    · obtain ⟨backslashes', hspans⟩ := starSpans_cons hstar pieces position backslashes
      rw [hspans, ih, mem_cons, not_or]
      exact ⟨fun hnot ↦ ⟨fun heq ↦ hstar heq.symm, hnot⟩, fun hnot ↦ hnot.2⟩

theorem eq_append_of_starSpans (hne : starSpans position backslashes pieces ≠ [])
    (hend : ∀ span ∈ starSpans position backslashes pieces,
      span.2 = position + piecesLength pieces) :
    ∃ inner, pieces = inner ++ [.bare '*'] ∧ .bare '*' ∉ inner := by
  induction pieces generalizing position backslashes with
  | nil => exact absurd rfl hne
  | cons piece pieces ih =>
    by_cases hstar : piece = .bare '*'
    · rw [hstar, starSpans, if_pos rfl] at hend
      have hlast := hend _ (mem_append_left _ (mem_singleton_self _))
      rw [piecesLength_cons] at hlast
      have hnil : pieces = [] := eq_nil_of_piecesLength (by simpa [pieceText] using hlast)
      exact ⟨[], by rw [hstar, hnil]; rfl, not_mem_nil⟩
    · obtain ⟨backslashes', hspans⟩ := starSpans_cons hstar pieces position backslashes
      rw [hspans] at hne hend
      obtain ⟨inner, rfl, hinner⟩ := ih hne fun span hspan ↦ by
        rw [hend span hspan, piecesLength_cons]
        omega
      refine ⟨piece :: inner, rfl, ?_⟩
      rw [mem_cons, not_or]
      exact ⟨fun heq ↦ hstar heq.symm, hinner⟩

theorem exists_cons_of_leadingWildcard (h : (starSpans 0 0 pieces).any leadingWildcard = true) :
    ∃ rest, pieces = .bare '*' :: rest := by
  obtain ⟨span, hspan, hleading⟩ := List.any_eq_true.mp h
  obtain rfl : span = (0, 1) := by simpa [leadingWildcard] using hleading
  cases pieces with
  | nil => exact absurd hspan not_mem_nil
  | cons piece pieces =>
    by_cases hstar : piece = .bare '*'
    · exact ⟨pieces, by rw [hstar]⟩
    · obtain ⟨backslashes', hspans⟩ := starSpans_cons hstar pieces 0 0
      rw [hspans] at hspan
      have hlt := lt_of_mem_starSpans hspan
      cases piece with
      | bare | escaped => simp [pieceText] at hlt

def surround : WildcardKind → List Regex.Token → List Regex.Token
  | .prefixKind, inner => inner ++ [.bare '*']
  | .suffixKind, inner => .bare '*' :: inner
  | .infixKind, inner => .bare '*' :: inner ++ [.bare '*']
  | .other, inner => inner

theorem not_leadingWildcard_of_mem {backslashes : ℕ}
    (h : span ∈ starSpans 1 backslashes pieces) : leadingWildcard span = false := by
  have hlt := lt_of_mem_starSpans h
  refine decide_eq_false fun heq ↦ ?_
  rw [heq] at hlt
  exact absurd hlt (lt_irrefl _)

theorem length_eq_piecesLength (value : List Char) :
    value.length = piecesLength (tokens value) := by
  rw [piecesLength, flatMap_pieceText_tokens]

theorem eq_length_of_not_middleWildcard (hmiddle : middleWildcard value span = false)
    (hleading : leadingWildcard span = false) : span.2 = value.length := by
  simpa [middleWildcard, hleading] using hmiddle

theorem eq_surround_prefixKind (hleading : (findWildcards value).any leadingWildcard = false)
    (hmiddle : (findWildcards value).any (middleWildcard value) = false)
    (hwildcard : findWildcards value ≠ []) :
    ∃ inner, tokens value = surround .prefixKind inner ∧ .bare '*' ∉ inner := by
  have hend : ∀ span ∈ findWildcards value, span.2 = value.length := fun span hspan ↦
    eq_length_of_not_middleWildcard (by simpa using List.any_eq_false.mp hmiddle span hspan)
      (by simpa using List.any_eq_false.mp hleading span hspan)
  rw [findWildcards_eq] at hend hwildcard
  refine eq_append_of_starSpans hwildcard fun span hspan ↦ ?_
  rw [hend span hspan, length_eq_piecesLength, Nat.zero_add]

theorem eq_surround_of_leadingWildcard (hleading : (findWildcards value).any leadingWildcard = true)
    (hmiddle : (findWildcards value).any (middleWildcard value) = false) :
    if (findWildcards value).any (trailingWildcard value) then
      ∃ inner, tokens value = surround .infixKind inner ∧ .bare '*' ∉ inner
    else ∃ inner, tokens value = surround .suffixKind inner ∧ .bare '*' ∉ inner := by
  rw [findWildcards_eq] at hleading hmiddle ⊢
  obtain ⟨rest, hrest⟩ := exists_cons_of_leadingWildcard hleading
  have hlength := length_eq_piecesLength value
  rw [hrest] at hmiddle hlength ⊢
  have hspans : starSpans 0 0 (.bare '*' :: rest) = (0, 1) :: starSpans 1 0 rest := rfl
  have htrailing : ∀ span ∈ starSpans 1 0 rest, span.2 = value.length := fun span hspan ↦
    eq_length_of_not_middleWildcard
      (by simpa using List.any_eq_false.mp hmiddle span (by rw [hspans]; exact .tail _ hspan))
      (not_leadingWildcard_of_mem hspan)
  split
  next hany =>
    obtain ⟨span, hspan, htrail⟩ := List.any_eq_true.mp hany
    have hne : starSpans 1 0 rest ≠ [] := by
      rintro hnil
      rw [hspans, hnil] at hspan
      rw [mem_singleton.mp hspan] at htrail
      exact absurd htrail (by simp [trailingWildcard, leadingWildcard])
    obtain ⟨inner, rfl, hinner⟩ := eq_append_of_starSpans hne fun span hspan ↦ by
      rw [htrailing span hspan, hlength, piecesLength_cons]
      rfl
    exact ⟨inner, rfl, hinner⟩
  next hany =>
    have hnil : starSpans 1 0 rest = [] := by
      refine eq_nil_iff_forall_not_mem.mpr fun span hspan ↦ ?_
      refine hany (List.any_eq_true.mpr ⟨span, by rw [hspans]; exact .tail _ hspan, ?_⟩)
      simp [trailingWildcard, not_leadingWildcard_of_mem hspan, htrailing span hspan]
    exact ⟨rest, rfl, starSpans_eq_nil_iff.mp hnil⟩

theorem eq_surround (h : classifyWildcard value ≠ .other) :
    ∃ inner, tokens value = surround (classifyWildcard value) inner ∧ .bare '*' ∉ inner := by
  rw [classifyWildcard] at h ⊢
  by_cases hwildcard : isWildcard value
  · rw [if_neg (not_not_intro hwildcard)] at h ⊢
    have hfound : findWildcards value ≠ [] := by simpa [isWildcard] using hwildcard
    by_cases hmiddle : (findWildcards value).any (middleWildcard value)
    · exact absurd (if_pos hmiddle) h
    · rw [if_neg hmiddle] at h ⊢
      by_cases hleading : (findWildcards value).any leadingWildcard
      · have hsurround := eq_surround_of_leadingWildcard hleading (by simpa using hmiddle)
        by_cases htrailing : (findWildcards value).any (trailingWildcard value)
        · rw [if_pos htrailing] at hsurround
          rwa [if_pos ⟨hleading, htrailing⟩]
        · rw [if_neg htrailing] at hsurround
          rwa [if_neg fun hboth ↦ htrailing hboth.2, if_pos hleading]
      · rw [if_neg fun hboth ↦ hleading hboth.1, if_neg hleading] at h ⊢
        by_cases htrailing : (findWildcards value).any (trailingWildcard value)
        · rw [if_pos htrailing]
          exact eq_surround_prefixKind (by simpa using hleading) (by simpa using hmiddle) hfound
        · exact absurd (if_neg htrailing) h
  · exact absurd (if_pos hwildcard) h

end Sentry.EventSearch
