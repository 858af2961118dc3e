import Mathlib.Tactic.Common

/-!
# Patterns that backtrack

A pattern gives, for a place in a text, the places where its matches end, the preferred ones first,
so that the first match of a sequence is the one a backtracking matcher finds. If nothing matches
where no text is left, a match begins before a character (`search_length_lt`).
-/

namespace Sentry.Library.Backtracking

open List

/-- A place in a text: what is before it, from the nearest character on, and what is after it. -/
structure Place where
  before : List Char
  after : List Char

abbrev Pattern := Place → List Place

def oneOf (isIn : Char → Bool) : Pattern
  | ⟨before, c :: after⟩ => if isIn c then [⟨c :: before, after⟩] else []
  | ⟨_, []⟩ => []

def seq (first second : Pattern) : Pattern := fun place ↦ (first place).flatMap second

/-- `first|second` -/
def either (first second : Pattern) : Pattern := fun place ↦ first place ++ second place

/-- `pattern?` -/
def optional (pattern : Pattern) : Pattern := fun place ↦ pattern place ++ [place]

def seqs (patterns : List Pattern) : Pattern := patterns.foldr seq fun place ↦ [place]

def word (text : List Char) : Pattern := seqs (text.map fun c ↦ oneOf (· = c))

/-- `pattern{n}` -/
def times (n : ℕ) (pattern : Pattern) : Pattern := seqs (List.replicate n pattern)

def runs (isIn : Char → Bool) (before : List Char) : List Char → List Place
  | [] => [⟨before, []⟩]
  | c :: after =>
    if isIn c then runs isIn (c :: before) after ++ [⟨before, c :: after⟩]
    else [⟨before, c :: after⟩]

/-- `[..]*` -/
def many (isIn : Char → Bool) : Pattern := fun place ↦ runs isIn place.before place.after

/-- `[..]*?` -/
def manyLazy (isIn : Char → Bool) : Pattern := fun place ↦ (many isIn place).reverse

/-- `[..]+` -/
def manyOne (isIn : Char → Bool) : Pattern := seq (oneOf isIn) (many isIn)

/-- `^` -/
def textStart : Pattern := fun place ↦ if place.before = [] then [place] else []

/-- `$`, which a newline at the end may follow. -/
def textEnd : Pattern := fun place ↦ if place.after = [] ∨ place.after = ['\n'] then [place] else []

/-- `\b` -/
def boundary (isWord : Char → Bool) : Pattern := fun place ↦
  if place.before.head?.any isWord ≠ place.after.head?.any isWord then [place] else []

/-- `.` -/
def dot (c : Char) : Bool := c ≠ '\n'

def searchFrom (pattern : Pattern) (before : List Char) : List Char → Option (Place × Place)
  | [] => (pattern ⟨before, []⟩).head?.map (⟨before, []⟩, ·)
  | c :: after =>
    match pattern ⟨before, c :: after⟩ with
    | found :: _ => some (⟨before, c :: after⟩, found)
    | [] => searchFrom pattern (c :: before) after

/-- `re.search` -/
def search (pattern : Pattern) (text : List Char) : Option (Place × Place) :=
  searchFrom pattern [] text

/-- `re.match` -/
def startsWith (pattern : Pattern) (text : List Char) : Bool := pattern ⟨[], text⟩ ≠ []

/-- `re.sub` from a place on, with a pattern that takes at least a character. -/
def subFrom (pattern : Pattern) (replacement : List Char) (place : Place) : List Char :=
  match pattern place with
  | found :: _ =>
    if found.after.length < place.after.length then
      replacement ++ subFrom pattern replacement found
    else place.after
  | [] =>
    match place with
    | ⟨_, []⟩ => []
    | ⟨before, c :: after⟩ => c :: subFrom pattern replacement ⟨c :: before, after⟩
termination_by place.after.length

/-- `re.sub` -/
def sub (pattern : Pattern) (replacement text : List Char) : List Char :=
  subFrom pattern replacement ⟨[], text⟩

variable {pattern : Pattern}

theorem searchFrom_spec {before after : List Char} {begins ends : Place}
    (h : searchFrom pattern before after = some (begins, ends)) :
    begins.before.length + begins.after.length = before.length + after.length ∧
      pattern begins ≠ [] := by
  induction after generalizing before with
  | nil =>
    obtain ⟨found, hfound, heq⟩ := Option.map_eq_some_iff.mp h
    obtain ⟨rfl, -⟩ := Prod.mk.inj heq
    exact ⟨rfl, ne_nil_of_mem (mem_of_head? hfound)⟩
  | cons c after ih =>
    rw [searchFrom] at h
    split at h
    next found others hfound =>
      obtain ⟨rfl, -⟩ := Prod.mk.inj (Option.some.inj h)
      exact ⟨rfl, by rw [hfound]; exact cons_ne_nil _ _⟩
    next =>
      obtain ⟨hlength, hmatch⟩ := ih h
      rw [length_cons] at hlength
      rw [length_cons]
      exact ⟨by omega, hmatch⟩

theorem search_length_lt {text : List Char} {begins ends : Place}
    (hpattern : ∀ before, pattern ⟨before, []⟩ = [])
    (h : search pattern text = some (begins, ends)) : begins.before.length < text.length := by
  obtain ⟨hlength, hmatch⟩ := searchFrom_spec h
  have hafter : begins.after ≠ [] := by
    intro hnil
    apply hmatch
    rw [show begins = ⟨begins.before, []⟩ from hnil ▸ rfl]
    exact hpattern begins.before
  have hpos : 0 < begins.after.length := length_pos_iff.mpr hafter
  rw [length_nil] at hlength
  omega

theorem subFrom_eq_self {replacement before after : List Char}
    (h : searchFrom pattern before after = none) :
    subFrom pattern replacement ⟨before, after⟩ = after := by
  induction after generalizing before with
  | nil =>
    rw [searchFrom, Option.map_eq_none_iff, head?_eq_none_iff] at h
    rw [subFrom, h]
  | cons c after ih =>
    rw [searchFrom] at h
    split at h
    next => cases h
    next hnone => rw [subFrom, hnone, ih h]

theorem sub_eq_self {replacement text : List Char}
    (h : search pattern text = none) : sub pattern replacement text = text :=
  subFrom_eq_self h

theorem length_subFrom_nil_le (pattern : Pattern) (place : Place) :
    (subFrom pattern [] place).length ≤ place.after.length := by
  fun_induction subFrom pattern [] place with
  | case1 place found others hfound hlt ih =>
    exact Nat.le_trans ih (Nat.le_of_lt hlt)
  | case2 | case3 => exact Nat.le_refl _
  | case4 before c after hnone ih =>
    exact Nat.succ_le_succ ih

theorem length_sub_nil_le (pattern : Pattern) (text : List Char) :
    (sub pattern [] text).length ≤ text.length :=
  length_subFrom_nil_le pattern ⟨[], text⟩

end Sentry.Library.Backtracking
