import Sentry.Grouping.FunctionNames
import Sentry.Library.DroppedEnds

/-!
# Arguments of functions

`parse_arguments` of `search/events/fields.py` and `parseArguments` of `discover/fields.tsx`. For
some functions commas in a quoted string do not separate arguments. There is one way to split a text
at the other commas (`SplitsOutside.unique`), and both scanners find it (`exists_scanArguments`).
But one of the two drops empty arguments, and the white space that they strip is not the same. So
the arguments are the same exactly if each of them has content (`splitAlike_iff`).
-/

namespace Sentry.Search.FunctionArguments

open List
open Grouping (isSpace)
open Library

abbrev Text := List Char

scoped instance instLawfulBEqText : LawfulBEq Text := List.instLawfulBEq

/-! ### White space -/

/-- The white space and line terminators of `String.prototype.trim`. -/
def isTrimmed (c : Char) : Bool :=
  c.toNat ∈ [0x20, 0xa0, 0x1680, 0x2028, 0x2029, 0x202f, 0x205f, 0x3000, 0xfeff] ∨
    0x09 ≤ c.toNat ∧ c.toNat ≤ 0x0d ∨ 0x2000 ≤ c.toNat ∧ c.toNat ≤ 0x200a

variable (space : Char → Bool)

def stripped (text : Text) : Text := (text.dropWhile space).rdropWhile space

/-- `str.strip` -/
def strip : Text → Text := stripped isSpace

/-- `String.prototype.trim` -/
def trim : Text → Text := stripped isTrimmed

/-! ### The scanners -/

/-- The variables of the loop. -/
structure Scan where
  args : List Text
  quoted : Bool
  escaped : Bool
  i : ℕ
  j : ℕ

/-- `columns[i:j]` -/
def slice (columns : Text) (i j : ℕ) : Text := (columns.take j).drop i

/-- The body of the loop at the character `columns[j]`, which is the same in both languages but for
the way to strip an argument. -/
def scanChar (columns : Text) (scan : Scan) (c : Char) : Scan :=
  if scan.i = scan.j ∧ c = '"' then { scan with quoted := true, j := scan.j + 1 }
  else if scan.i = scan.j ∧ c = ' ' then { scan with i := scan.i + 1, j := scan.j + 1 }
  else if scan.quoted ∧ ¬ scan.escaped ∧ c = '\\' then
    { scan with escaped := true, j := scan.j + 1 }
  else if scan.quoted ∧ ¬ scan.escaped ∧ c = '"' then
    { scan with quoted := false, j := scan.j + 1 }
  else if scan.quoted ∧ scan.escaped then { scan with escaped := false, j := scan.j + 1 }
  else if scan.quoted ∧ c = ',' then { scan with j := scan.j + 1 }
  else if c = ',' then
    { scan with
      args := scan.args ++ [stripped space (slice columns scan.i scan.j)]
      i := scan.j + 1
      j := scan.j + 1 }
  else { scan with j := scan.j + 1 }

def scanArguments (columns : Text) : List Text :=
  let scan := columns.foldl (scanChar space columns) ⟨[], false, false, 0, 0⟩
  if scan.i ≠ scan.j then scan.args ++ [stripped space (columns.drop scan.i)] else scan.args

def isQuoting (function : String) : Bool := function ∈ ["to_other", "count_if", "spans_histogram"]

/-- `parse_arguments` -/
def Backend.parseArguments (function : String) (columns : Text) : List Text :=
  if ¬ isQuoting function ∨ columns.length = 0 then
    ((columns.splitOn ',').filter fun c ↦ 0 < (strip c).length).map strip
  else (scanArguments isSpace columns).filter (· ≠ [])

/-- `parseArguments` -/
def Frontend.parseArguments (functionText : String) (columnText : Text) : List Text :=
  if ¬ isQuoting functionText ∨ columnText.length = 0 then
    if columnText ≠ [] then (columnText.splitOn ',').map trim else []
  else scanArguments isTrimmed columnText

/-! ### Commas outside of quoted strings -/

/-- What stands in a quoted string: a backslash takes the next character with it. -/
inductive Inside : Text → Prop
  | nil : Inside []
  | char {c : Char} {s : Text} : c ≠ '"' → c ≠ '\\' → Inside s → Inside (c :: s)
  | escape (c : Char) {s : Text} : Inside s → Inside ('\\' :: c :: s)

/-- A piece without a comma outside of a quoted string, which is at its beginning if there is one,
and has an end. -/
inductive Closed : Text → Prop
  | space {s : Text} : Closed s → Closed (' ' :: s)
  | unquoted {s : Text} : (∀ c ∈ s.head?, c ≠ '"' ∧ c ≠ ' ') → ',' ∉ s → Closed s
  | quoted {body tail : Text} : Inside body → ',' ∉ tail → Closed ('"' :: body ++ '"' :: tail)

/-- A piece with a quoted string that has no end. -/
inductive Open : Text → Prop
  | space {s : Text} : Open s → Open (' ' :: s)
  | quoted {body : Text} : Inside body → Open ('"' :: body)
  | escaped {body : Text} : Inside body → Open ('"' :: body ++ ['\\'])

/-- The text is the pieces with commas between them, and only the last one may be open. -/
inductive SplitsOutside : Text → List Text → Prop
  | last {piece : Text} : Closed piece ∨ Open piece → SplitsOutside piece [piece]
  | cons {piece rest : Text} {pieces : List Text} : Closed piece → SplitsOutside rest pieces →
      SplitsOutside (piece ++ ',' :: rest) (piece :: pieces)

/-! ### One way to split -/

/-- Where in a piece a scanner is: at the beginning, outside of strings, in one, behind a backslash
in one, or past the end of the piece. -/
inductive Position
  | start
  | plain
  | quoted
  | escaped
  | past
  deriving DecidableEq

def Position.next : Position → Char → Position
  | start, c =>
    if c = '"' then quoted
    else if c = ' ' then start
    else if c = ',' then past
    else plain
  | plain, c => if c = ',' then past else plain
  | quoted, c => if c = '\\' then escaped else if c = '"' then plain else quoted
  | escaped, _ => quoted
  | past, _ => past

def Position.isQuoted : Position → Bool
  | quoted => true
  | escaped => true
  | _ => false

def Position.isEscaped : Position → Bool
  | escaped => true
  | _ => false

def positionFrom (position : Position) (s : Text) : Position := s.foldl Position.next position

theorem positionFrom_append (position : Position) (s t : Text) :
    positionFrom position (s ++ t) = positionFrom (positionFrom position s) t :=
  foldl_append

theorem positionFrom_past (s : Text) : positionFrom .past s = .past := by
  induction s with
  | nil => rfl
  | cons c s ih => exact ih

theorem positionFrom_plain {s : Text} (h : ',' ∉ s) : positionFrom .plain s = .plain := by
  induction s with
  | nil => rfl
  | cons c s ih =>
    rw [mem_cons, not_or] at h
    show positionFrom (if c = ',' then .past else .plain) s = .plain
    rw [if_neg (Ne.symm h.1), ih h.2]

theorem Inside.positionFrom_quoted {body : Text} (h : Inside body) :
    positionFrom .quoted body = .quoted := by
  induction h with
  | nil => rfl
  | @char c s hquote hescape _ ih =>
    show positionFrom (if c = '\\' then .escaped else if c = '"' then .plain else .quoted) s = _
    rw [if_neg hescape, if_neg hquote, ih]
  | escape c _ ih => exact ih

variable {piece : Text}

theorem Closed.position (h : Closed piece) :
    positionFrom .start piece = .start ∨ positionFrom .start piece = .plain := by
  induction h with
  | space _ ih => exact ih
  | @unquoted s hhead hcomma =>
    cases s with
    | nil => exact .inl rfl
    | cons c s =>
      obtain ⟨hquote, hspace⟩ := hhead c rfl
      rw [List.mem_cons, not_or] at hcomma
      right
      show positionFrom (Position.next .start c) s = .plain
      rw [Position.next, if_neg hquote, if_neg hspace, if_neg (Ne.symm hcomma.1)]
      exact positionFrom_plain hcomma.2
  | @quoted body tail hbody htail =>
    right
    show positionFrom .quoted (body ++ '"' :: tail) = .plain
    rw [positionFrom_append, hbody.positionFrom_quoted]
    exact positionFrom_plain htail

theorem Open.position (h : Open piece) :
    positionFrom .start piece = .quoted ∨ positionFrom .start piece = .escaped := by
  induction h with
  | space _ ih => exact ih
  | quoted hbody => exact .inl hbody.positionFrom_quoted
  | @escaped body hbody =>
    right
    show positionFrom .quoted (body ++ ['\\']) = .escaped
    rw [positionFrom_append, hbody.positionFrom_quoted]
    rfl

theorem Closed.position_comma (h : Closed piece) (rest : Text) :
    positionFrom .start (piece ++ ',' :: rest) = .past := by
  rw [positionFrom_append]
  rcases h.position with hstart | hplain
  · rw [hstart]
    exact positionFrom_past rest
  · rw [hplain]
    exact positionFrom_past rest

theorem position_ne_past (h : Closed piece ∨ Open piece) : positionFrom .start piece ≠ .past := by
  rcases h with h | h
  all_goals rcases h.position with hposition | hposition <;> rw [hposition] <;> nofun

theorem Closed.not_append_comma {piece rest : Text} (h : Closed piece) :
    ¬ (Closed (piece ++ ',' :: rest) ∨ Open (piece ++ ',' :: rest)) :=
  fun hpiece ↦ position_ne_past hpiece (h.position_comma rest)

theorem Closed.append_comma_inj {piece piece' rest rest' : Text} (h : Closed piece)
    (h' : Closed piece') (heq : piece ++ ',' :: rest = piece' ++ ',' :: rest') :
    piece = piece' ∧ rest = rest' := by
  rcases append_eq_append_iff.mp heq with ⟨between, rfl, hrest⟩ | ⟨between, rfl, hrest⟩
  · cases between with
    | nil =>
      rw [nil_append, List.cons.injEq] at hrest
      exact ⟨(append_nil piece).symm, hrest.2⟩
    | cons c between =>
      obtain ⟨rfl, -⟩ := hrest
      exact absurd (.inl h') h.not_append_comma
  · cases between with
    | nil =>
      rw [nil_append, List.cons.injEq] at hrest
      exact ⟨append_nil piece', hrest.2.symm⟩
    | cons c between =>
      obtain ⟨rfl, -⟩ := hrest
      exact absurd (.inl h) h'.not_append_comma

theorem SplitsOutside.unique {text : Text} {pieces pieces' : List Text}
    (h : SplitsOutside text pieces) (h' : SplitsOutside text pieces') : pieces = pieces' := by
  induction h generalizing pieces' with
  | last hpiece =>
    cases h' with
    | last _ => rfl
    | cons hclosed _ => exact absurd hpiece hclosed.not_append_comma
  | @cons piece rest pieces hclosed _ ih =>
    generalize htext : piece ++ ',' :: rest = text at h'
    cases h' with
    | last hpiece =>
      rw [← htext] at hpiece
      exact absurd hpiece hclosed.not_append_comma
    | cons hclosed' h' =>
      obtain ⟨rfl, rfl⟩ := hclosed.append_comma_inj hclosed' htext
      rw [ih h']

/-! ### Pieces -/

theorem inside_cases (s : Text) : Inside s ∨ (∃ body, Inside body ∧ s = body ++ ['\\']) ∨
    ∃ body tail, Inside body ∧ s = body ++ '"' :: tail := by
  induction hlength : s.length using Nat.strong_induction_on generalizing s with
  | _ length ih =>
    cases s with
    | nil => exact .inl .nil
    | cons c s =>
      rw [List.length_cons] at hlength
      by_cases hquote : c = '"'
      · exact .inr (.inr ⟨[], s, .nil, by rw [hquote, nil_append]⟩)
      by_cases hescape : c = '\\'
      · cases s with
        | nil => exact .inr (.inl ⟨[], .nil, by rw [hescape, nil_append]⟩)
        | cons d s =>
          rw [length_cons] at hlength
          rw [hescape]
          rcases ih s.length (by omega) s rfl with h | ⟨body, h, rfl⟩ | ⟨body, tail, h, rfl⟩
          · exact .inl (.escape d h)
          · exact .inr (.inl ⟨_, .escape d h, rfl⟩)
          · exact .inr (.inr ⟨_, tail, .escape d h, rfl⟩)
      · rcases ih s.length (by omega) s rfl with h | ⟨body, h, rfl⟩ | ⟨body, tail, h, rfl⟩
        · exact .inl (.char hquote hescape h)
        · exact .inr (.inl ⟨_, .char hquote hescape h, rfl⟩)
        · exact .inr (.inr ⟨_, tail, .char hquote hescape h, rfl⟩)

theorem piece_cases (s : Text) :
    Closed s ∨ Open s ∨ ∃ piece rest, Closed piece ∧ s = piece ++ ',' :: rest := by
  induction s with
  | nil => exact .inl (.unquoted nofun not_mem_nil)
  | cons c s ih =>
    by_cases hspace : c = ' '
    · rw [hspace]
      rcases ih with h | h | ⟨piece, rest, h, rfl⟩
      · exact .inl h.space
      · exact .inr (.inl h.space)
      · exact .inr (.inr ⟨_, rest, h.space, rfl⟩)
    by_cases hquote : c = '"'
    · rw [hquote]
      rcases inside_cases s with h | ⟨body, h, rfl⟩ | ⟨body, tail, h, rfl⟩
      · exact .inr (.inl (.quoted h))
      · exact .inr (.inl (.escaped h))
      · by_cases hcomma : ',' ∈ tail
        · obtain ⟨first, rest, rfl, hfirst⟩ := List.eq_append_cons_of_mem hcomma
          exact .inr (.inr ⟨_, rest, .quoted h hfirst, by simp⟩)
        · exact .inl (.quoted h hcomma)
    · by_cases hcomma : ',' ∈ c :: s
      · obtain ⟨first, rest, hsplit, hfirst⟩ := List.eq_append_cons_of_mem hcomma
        refine .inr (.inr ⟨first, rest, .unquoted (fun d hd ↦ ?_) hfirst, hsplit⟩)
        cases first with
        | nil => nomatch hd
        | cons e first =>
          obtain rfl := Option.some.inj hd
          rw [List.cons_append, List.cons.injEq] at hsplit
          rw [← hsplit.1]
          exact ⟨hquote, hspace⟩
      · refine .inl (.unquoted (fun d hd ↦ ?_) hcomma)
        obtain rfl := Option.some.inj hd
        exact ⟨hquote, hspace⟩

theorem closed_or_open (h : positionFrom .start piece ≠ .past) : Closed piece ∨ Open piece := by
  rcases piece_cases piece with hclosed | hopen | ⟨first, rest, hclosed, rfl⟩
  · exact .inl hclosed
  · exact .inr hopen
  · exact absurd (hclosed.position_comma rest) h

theorem closed_of_position
    (h : positionFrom .start piece = .start ∨ positionFrom .start piece = .plain) :
    Closed piece := by
  rcases closed_or_open (by rcases h with h | h <;> rw [h] <;> nofun) with hclosed | hopen
  · exact hclosed
  · exact absurd h (by rcases hopen.position with h' | h' <;> rw [h'] <;> nofun)

/-! ### The scanners -/

theorem next_ne_start {position : Position} (h : position ≠ .start) (c : Char) :
    position.next c ≠ .start := by
  cases position with
  | start => exact absurd rfl h
  | plain => rw [Position.next]; split <;> nofun
  | quoted => rw [Position.next]; split <;> [nofun; split <;> nofun]
  | escaped => nofun
  | past => nofun

theorem positionFrom_concat (piece : Text) (c : Char) :
    positionFrom .start (piece ++ [c]) = (positionFrom .start piece).next c := by
  rw [positionFrom_append]
  rfl

theorem positionFrom_eq_start_iff (piece : Text) :
    positionFrom .start piece = .start ↔ piece.dropWhile (· = ' ') = [] := by
  rw [List.dropWhile_eq_nil_iff]
  induction piece using List.reverseRecOn with
  | nil => exact ⟨fun _ ↦ nofun, fun _ ↦ rfl⟩
  | append_singleton piece c ih =>
    rw [positionFrom_concat, List.forall_mem_append, ← ih, List.forall_mem_singleton,
      decide_eq_true_eq]
    constructor
    · intro h
      by_cases hstart : positionFrom .start piece = .start
      · refine ⟨hstart, ?_⟩
        rw [hstart, Position.next] at h
        split at h
        next => nomatch h
        next =>
          split at h
          next hspace => exact hspace
          next => split at h <;> nomatch h
      · exact absurd h (next_ne_start hstart c)
    · rintro ⟨hstart, rfl⟩
      rw [hstart]
      rfl

theorem length_dropWhile_concat (piece : Text) (c : Char) :
    ((piece ++ [c]).dropWhile (· = ' ')).length =
      if positionFrom .start (piece ++ [c]) = .start then 0
      else (piece.dropWhile (· = ' ')).length + 1 := by
  simp only [positionFrom_eq_start_iff, List.dropWhile_append]
  by_cases hnil : piece.dropWhile (· = ' ') = []
  · by_cases hspace : c = ' '
    · simp [hnil, hspace]
    · simp [hnil, hspace]
  · simp [hnil]

def written (pieces : List Text) : Text := pieces.flatMap fun piece ↦ piece ++ [',']

variable {space : Char → Bool}

/-- What a scanner knows after some pieces and the beginning of another one. -/
structure Scanned (space : Char → Bool) (pieces : List Text) (piece : Text) (scan : Scan) :
    Prop where
  closed : ∀ other ∈ pieces, Closed other
  position : positionFrom .start piece ≠ .past
  args_eq : scan.args = pieces.map (stripped space)
  quoted_eq : scan.quoted = (positionFrom .start piece).isQuoted
  escaped_eq : scan.escaped = (positionFrom .start piece).isEscaped
  i_add : scan.i + (piece.dropWhile (· = ' ')).length = scan.j
  j_eq : scan.j = (written pieces ++ piece).length

section

variable {pieces : List Text} {piece : Text}

theorem Scanned.i_eq_j_iff {scan : Scan} (h : Scanned space pieces piece scan) :
    scan.i = scan.j ↔ positionFrom .start piece = .start := by
  rw [positionFrom_eq_start_iff, ← List.length_eq_zero_iff, ← h.i_add]
  omega

theorem Scanned.slice_eq {scan : Scan} (h : Scanned space pieces piece scan) (rest : Text) :
    slice (written pieces ++ piece ++ rest) scan.i scan.j = piece.dropWhile (· = ' ') := by
  have hsplit : written pieces ++ piece =
      written pieces ++ piece.takeWhile (· = ' ') ++ piece.dropWhile (· = ' ') := by
    rw [List.append_assoc, List.takeWhile_append_dropWhile]
  have hi : scan.i = (written pieces ++ piece.takeWhile (· = ' ')).length := by
    have hj := h.j_eq
    rw [hsplit, List.length_append, ← h.i_add] at hj
    omega
  rw [slice, h.j_eq, List.take_left, hsplit, hi, List.drop_left]

theorem Scanned.extend {scan next : Scan} {c : Char} {position : Position}
    (h : Scanned space pieces piece scan) (hnext : (positionFrom .start piece).next c = position)
    (hposition : position ≠ .past) (hargs : next.args = scan.args)
    (hquoted : next.quoted = position.isQuoted) (hescaped : next.escaped = position.isEscaped)
    (hi : next.i = if position = .start then scan.i + 1 else scan.i) (hj : next.j = scan.j + 1) :
    Scanned space pieces (piece ++ [c]) next where
  closed := h.closed
  position := by rwa [positionFrom_concat, hnext]
  args_eq := hargs.trans h.args_eq
  quoted_eq := by rwa [positionFrom_concat, hnext]
  escaped_eq := by rwa [positionFrom_concat, hnext]
  i_add := by
    have hi_add := h.i_add
    rw [hi, hj, length_dropWhile_concat, positionFrom_concat, hnext]
    split
    next hstart =>
      have hpiece : positionFrom .start piece = .start := by
        by_contra hne
        exact next_ne_start hne c (hnext.trans hstart)
      rw [h.i_eq_j_iff.mpr hpiece]
    next => omega
  j_eq := by
    rw [hj, h.j_eq]
    simp [Nat.add_assoc]

theorem Scanned.comma {scan next : Scan}
    (h : Scanned space pieces piece scan) (hclosed : Closed piece)
    (hargs : next.args = scan.args ++ [stripped space piece]) (hquoted : next.quoted = false)
    (hescaped : next.escaped = false) (hi : next.i = next.j) (hj : next.j = scan.j + 1) :
    Scanned space (pieces ++ [piece]) [] next where
  closed := by
    rw [List.forall_mem_append, List.forall_mem_singleton]
    exact ⟨h.closed, hclosed⟩
  position := nofun
  args_eq := by rw [hargs, h.args_eq, List.map_append, List.map_singleton]
  quoted_eq := hquoted
  escaped_eq := hescaped
  i_add := hi
  j_eq := by
    rw [hj, h.j_eq]
    simp [written, Nat.add_assoc]

end

theorem stripped_dropWhile (hspace : space ' ' = true) (piece : Text) :
    stripped space (piece.dropWhile (· = ' ')) = stripped space piece := by
  induction piece with
  | nil => rfl
  | cons c piece ih =>
    rw [List.dropWhile_cons]
    split
    next hc =>
      rw [ih, of_decide_eq_true hc, stripped, stripped, List.dropWhile_cons_of_pos hspace]
    next => rfl

section Characters

variable {columns : Text} {args : List Text} {i j : ℕ} {c : Char}

theorem scanChar_start : scanChar space columns ⟨args, false, false, i, i⟩ c =
    if c = '"' then ⟨args, true, false, i, i + 1⟩
    else if c = ' ' then ⟨args, false, false, i + 1, i + 1⟩
    else if c = ',' then
      ⟨args ++ [stripped space (slice columns i i)], false, false, i + 1, i + 1⟩
    else ⟨args, false, false, i, i + 1⟩ := by
  simp [scanChar]

theorem scanChar_plain (h : i ≠ j) : scanChar space columns ⟨args, false, false, i, j⟩ c =
    if c = ',' then ⟨args ++ [stripped space (slice columns i j)], false, false, j + 1, j + 1⟩
    else ⟨args, false, false, i, j + 1⟩ := by
  simp [scanChar, h]

theorem scanChar_quoted (h : i ≠ j) : scanChar space columns ⟨args, true, false, i, j⟩ c =
    if c = '\\' then ⟨args, true, true, i, j + 1⟩
    else if c = '"' then ⟨args, false, false, i, j + 1⟩
    else ⟨args, true, false, i, j + 1⟩ := by
  by_cases hcomma : c = ','
  all_goals simp [scanChar, h, hcomma]

theorem scanChar_escaped (h : i ≠ j) : scanChar space columns ⟨args, true, true, i, j⟩ c =
    ⟨args, true, false, i, j + 1⟩ := by
  simp [scanChar, h]

end Characters

def GoesOn (space : Char → Bool) (pieces : List Text) (piece : Text) (c : Char) (next : Scan) :
    Prop :=
  ∃ pieces' piece', written pieces' ++ piece' = written pieces ++ piece ++ [c] ∧
    Scanned space pieces' piece' next

section Turn

variable {pieces : List Text} {piece : Text} {scan next : Scan} {position : Position} {c : Char}

theorem Scanned.goesOn_extend (h : Scanned space pieces piece scan)
    (hnext : (positionFrom .start piece).next c = position) (hposition : position ≠ .past)
    (hargs : next.args = scan.args) (hquoted : next.quoted = position.isQuoted)
    (hescaped : next.escaped = position.isEscaped)
    (hi : next.i = if position = .start then scan.i + 1 else scan.i) (hj : next.j = scan.j + 1) :
    GoesOn space pieces piece c next :=
  ⟨pieces, piece ++ [c], (List.append_assoc ..).symm,
    h.extend hnext hposition hargs hquoted hescaped hi hj⟩

theorem Scanned.goesOn_comma (h : Scanned space pieces piece scan) (hclosed : Closed piece)
    (hc : c = ',') (hargs : next.args = scan.args ++ [stripped space piece])
    (hquoted : next.quoted = false) (hescaped : next.escaped = false)
    (hi : next.i = next.j) (hj : next.j = scan.j + 1) : GoesOn space pieces piece c next :=
  ⟨pieces ++ [piece], [], by simp [written, hc], h.comma hclosed hargs hquoted hescaped hi hj⟩

variable {args : List Text} {i j : ℕ} (rest : Text)

theorem Scanned.goesOn_start (hspace : space ' ' = true)
    (h : Scanned space pieces piece ⟨args, false, false, i, i⟩)
    (hposition : positionFrom .start piece = .start) :
    GoesOn space pieces piece c (scanChar space
      (written pieces ++ piece ++ rest) ⟨args, false, false, i, i⟩ c) := by
  have hnext := congrArg (Position.next · c) hposition
  simp only [Position.next] at hnext
  rw [scanChar_start]
  split_ifs at hnext ⊢ with hquote hblank hcomma
  · exact h.goesOn_extend hnext nofun rfl rfl rfl rfl rfl
  · exact h.goesOn_extend hnext nofun rfl rfl rfl rfl rfl
  · rw [h.slice_eq, stripped_dropWhile hspace]
    exact h.goesOn_comma (closed_of_position (.inl hposition)) hcomma rfl rfl rfl rfl rfl
  · exact h.goesOn_extend hnext nofun rfl rfl rfl rfl rfl

theorem Scanned.goesOn_plain (hspace : space ' ' = true)
    (h : Scanned space pieces piece ⟨args, false, false, i, j⟩)
    (hposition : positionFrom .start piece = .plain) (hij : i ≠ j) :
    GoesOn space pieces piece c (scanChar space
      (written pieces ++ piece ++ rest) ⟨args, false, false, i, j⟩ c) := by
  have hnext := congrArg (Position.next · c) hposition
  simp only [Position.next] at hnext
  rw [scanChar_plain hij]
  split_ifs at hnext ⊢ with hcomma
  · rw [h.slice_eq, stripped_dropWhile hspace]
    exact h.goesOn_comma (closed_of_position (.inr hposition)) hcomma rfl rfl rfl rfl rfl
  · exact h.goesOn_extend hnext nofun rfl rfl rfl rfl rfl

theorem Scanned.goesOn_quoted (h : Scanned space pieces piece ⟨args, true, false, i, j⟩)
    (hposition : positionFrom .start piece = .quoted) (hij : i ≠ j) :
    GoesOn space pieces piece c (scanChar space
      (written pieces ++ piece ++ rest) ⟨args, true, false, i, j⟩ c) := by
  have hnext := congrArg (Position.next · c) hposition
  simp only [Position.next] at hnext
  rw [scanChar_quoted hij]
  split_ifs at hnext ⊢ with hescape hquote
  all_goals exact h.goesOn_extend hnext nofun rfl rfl rfl rfl rfl

theorem Scanned.goesOn_scanChar (hspace : space ' ' = true) (h : Scanned space pieces piece scan) :
    GoesOn space pieces piece c
      (scanChar space (written pieces ++ piece ++ rest) scan c) := by
  have hij := h.i_eq_j_iff
  have hquoted := h.quoted_eq
  have hescaped := h.escaped_eq
  obtain ⟨args, quoted, escaped, i, j⟩ := scan
  cases hposition : positionFrom .start piece with
  | past => exact absurd hposition h.position
  | start =>
    rw [hposition] at hquoted hescaped hij
    obtain rfl : i = j := hij.mpr rfl
    obtain rfl : quoted = false := hquoted
    obtain rfl : escaped = false := hescaped
    exact h.goesOn_start rest hspace hposition
  | plain =>
    rw [hposition] at hquoted hescaped hij
    obtain rfl : quoted = false := hquoted
    obtain rfl : escaped = false := hescaped
    exact h.goesOn_plain rest hspace hposition fun heq ↦ nomatch hij.mp heq
  | quoted =>
    rw [hposition] at hquoted hescaped hij
    obtain rfl : quoted = true := hquoted
    obtain rfl : escaped = false := hescaped
    exact h.goesOn_quoted rest hposition fun heq ↦ nomatch hij.mp heq
  | escaped =>
    rw [hposition] at hquoted hescaped hij
    obtain rfl : quoted = true := hquoted
    obtain rfl : escaped = true := hescaped
    rw [scanChar_escaped fun heq ↦ nomatch hij.mp heq]
    exact h.goesOn_extend (congrArg (Position.next · c) hposition) nofun rfl rfl rfl rfl rfl

end Turn

theorem scanned_foldl (hspace : space ' ' = true) {columns rest : Text} {pieces : List Text}
    {scan : Scan} (h : Scanned space pieces piece scan)
    (hcolumns : written pieces ++ piece ++ rest = columns) :
    ∃ pieces' piece', written pieces' ++ piece' = columns ∧
      Scanned space pieces' piece' (rest.foldl (scanChar space columns) scan) := by
  induction rest generalizing pieces piece scan with
  | nil => exact ⟨pieces, piece, by rw [← hcolumns, List.append_nil], h⟩
  | cons c rest ih =>
    obtain ⟨pieces', piece', hwritten, hnext⟩ := h.goesOn_scanChar (c :: rest) hspace
    rw [hcolumns] at hnext
    refine ih hnext ?_
    rw [hwritten, ← hcolumns, List.append_assoc _ [c], List.singleton_append]

theorem splitsOutside_written {pieces : List Text}
    (hclosed : ∀ other ∈ pieces, Closed other) (h : Closed piece ∨ Open piece) :
    SplitsOutside (written pieces ++ piece) (pieces ++ [piece]) := by
  induction pieces with
  | nil => exact .last h
  | cons other pieces ih =>
    rw [List.forall_mem_cons] at hclosed
    have hwritten : written (other :: pieces) ++ piece =
        other ++ ',' :: (written pieces ++ piece) := by
      simp [written]
    rw [hwritten]
    exact .cons hclosed.1 (ih hclosed.2)

def argumentPieces (pieces : List Text) : List Text :=
  if (pieces.getLastD []).all (· = ' ') then pieces.dropLast else pieces

theorem exists_scanArguments (hspace : space ' ' = true) (columns : Text) :
    ∃ pieces, SplitsOutside columns pieces ∧
      scanArguments space columns = (argumentPieces pieces).map (stripped space) := by
  have hstart : Scanned space [] [] ⟨[], false, false, 0, 0⟩ :=
    ⟨nofun, nofun, rfl, rfl, rfl, rfl, rfl⟩
  obtain ⟨pieces, piece, hwritten, hscan⟩ :=
    scanned_foldl hspace hstart (show written [] ++ [] ++ columns = columns from rfl)
  refine ⟨pieces ++ [piece], ?_, ?_⟩
  · rw [← hwritten]
    exact splitsOutside_written hscan.closed (closed_or_open hscan.position)
  · have hslice := hscan.slice_eq []
    rw [List.append_nil, slice, hscan.j_eq, List.take_length, hwritten] at hslice
    have hblank : piece.all (· = ' ') = true ↔ positionFrom .start piece = .start := by
      rw [positionFrom_eq_start_iff, List.dropWhile_eq_nil_iff, List.all_eq_true]
    rw [scanArguments, argumentPieces, List.getLastD_concat, List.dropLast_concat]
    by_cases hstart : positionFrom .start piece = .start
    · rw [if_neg (not_not.mpr (hscan.i_eq_j_iff.mpr hstart)), if_pos (hblank.mpr hstart),
        hscan.args_eq]
    · rw [if_pos (mt hscan.i_eq_j_iff.mp hstart), if_neg (mt hblank.mp hstart), hscan.args_eq,
        hslice, stripped_dropWhile hspace, List.map_append, List.map_singleton]

/-! ### Agreement -/

def HasContent (piece : Text) : Prop :=
  ∃ before core after, piece = before ++ core ++ after ∧ core ≠ [] ∧
    (∀ c ∈ before ++ after, isSpace c = true ∧ isTrimmed c = true) ∧
    ∀ c, c ∈ core.head? ∨ c ∈ core.getLast? → isSpace c = false ∧ isTrimmed c = false

theorem exists_stripped (space : Char → Bool) (text : Text) :
    ∃ before after, text = before ++ stripped space text ++ after ∧
      (∀ c ∈ before ++ after, space c = true) ∧
      ∀ c, c ∈ (stripped space text).head? ∨ c ∈ (stripped space text).getLast? →
        space c = false := by
  refine ⟨text.takeWhile space, (text.dropWhile space).rtakeWhile space, ?_, ?_, ?_⟩
  · rw [stripped, List.append_assoc, List.rdropWhile_append_rtakeWhile,
      List.takeWhile_append_dropWhile]
  · rw [List.forall_mem_append]
    exact ⟨fun c hc ↦ List.mem_takeWhile_imp hc, fun c hc ↦ List.mem_rtakeWhile_imp hc⟩
  · rintro c (hc | hc)
    · exact not_head_dropWhile_rdropWhile hc
    · exact not_getLast_rdropWhile hc

theorem stripped_append {before core after : Text} (hcore : core ≠ [])
    (hspace : ∀ c ∈ before ++ after, space c = true)
    (hends : ∀ c, c ∈ core.head? ∨ c ∈ core.getLast? → space c = false) :
    stripped space (before ++ core ++ after) = core := by
  rw [List.forall_mem_append] at hspace
  have hhead := hends _ (.inl (List.head?_eq_some_head hcore))
  have hlast := hends _ (.inr (List.getLast?_eq_some_getLast hcore))
  have hdrop : (core ++ after).dropWhile space = core ++ after := by
    obtain ⟨c, core, rfl⟩ := List.exists_cons_of_ne_nil hcore
    exact List.dropWhile_cons_of_neg (Bool.not_eq_true _ ▸ hhead)
  rw [stripped, List.append_assoc, List.dropWhile_append_of_pos hspace.1, hdrop,
    rdropWhile_append_of_all _ hspace.2]
  exact List.rdropWhile_eq_self_iff.mpr fun _ ↦ by rw [hlast]; nofun

theorem eq_of_append_core {p q : Char → Bool} {before before' core rest rest' : Text}
    (heq : before ++ (core ++ rest) = before' ++ (core ++ rest'))
    (hp : ∀ c ∈ before, p c = true) (hq : ∀ c ∈ before', q c = true) (hcore : core ≠ [])
    (hhead : ∀ c ∈ core.head?, p c = false ∧ q c = false) : before = before' := by
  obtain ⟨d, core, rfl⟩ := List.exists_cons_of_ne_nil hcore
  obtain ⟨hpd, hqd⟩ := hhead d rfl
  rcases List.append_eq_append_iff.mp heq with ⟨between, rfl, hrest⟩ | ⟨between, rfl, hrest⟩
  · cases between with
    | nil => rw [List.append_nil]
    | cons c between =>
      obtain rfl : d = c := (List.cons.inj hrest).1
      have hqd' := hq d (List.mem_append_right _ List.mem_cons_self)
      rw [hqd] at hqd'
      nomatch hqd'
  · cases between with
    | nil => rw [List.append_nil]
    | cons c between =>
      obtain rfl : d = c := (List.cons.inj hrest).1
      have hpd' := hp d (List.mem_append_right _ List.mem_cons_self)
      rw [hpd] at hpd'
      nomatch hpd'

theorem hasContent_iff (piece : Text) :
    HasContent piece ↔ strip piece ≠ [] ∧ strip piece = trim piece := by
  constructor
  · rintro ⟨before, core, after, rfl, hcore, hspace, hends⟩
    have hstrip : strip (before ++ core ++ after) = core :=
      stripped_append hcore (fun c hc ↦ (hspace c hc).1) fun c hc ↦ (hends c hc).1
    have htrim : trim (before ++ core ++ after) = core :=
      stripped_append hcore (fun c hc ↦ (hspace c hc).2) fun c hc ↦ (hends c hc).2
    exact ⟨hstrip.symm ▸ hcore, hstrip.trans htrim.symm⟩
  · rintro ⟨hcore, heq⟩
    obtain ⟨before, after, hsplit, hspace, hends⟩ := exists_stripped isSpace piece
    obtain ⟨before', after', hsplit', hspace', hends'⟩ := exists_stripped isTrimmed piece
    rw [show stripped isTrimmed piece = strip piece from heq.symm] at hsplit' hends'
    have hends (c : Char) (hc : c ∈ (strip piece).head? ∨ c ∈ (strip piece).getLast?) :
        isSpace c = false ∧ isTrimmed c = false := ⟨hends c hc, hends' c hc⟩
    rw [List.forall_mem_append] at hspace hspace'
    have hboth := hsplit.symm.trans hsplit'
    rw [List.append_assoc, List.append_assoc] at hboth
    obtain rfl := eq_of_append_core hboth hspace.1 hspace'.1 hcore fun c hc ↦ hends c (.inl hc)
    obtain rfl := List.append_cancel_left (List.append_cancel_left hboth)
    refine ⟨before, strip piece, after, hsplit, hcore, fun c hc ↦ ?_, hends⟩
    rcases List.mem_append.mp hc with hc | hc
    · exact ⟨hspace.1 c hc, hspace'.1 c hc⟩
    · exact ⟨hspace.2 c hc, hspace'.2 c hc⟩

/-- Every argument has content. The last one need not have any if the function quotes and there are
only spaces in it. -/
def ArgumentsHaveContent (function : String) (columns : Text) : Prop :=
  columns = [] ∨ if isQuoting function then
    ∀ pieces, SplitsOutside columns pieces → ∀ piece ∈ argumentPieces pieces, HasContent piece
  else ∀ piece ∈ columns.splitOn ',', HasContent piece

/-- Both languages give the same arguments, and where arguments may be quoted these are the pieces
of the text between commas outside of quoted strings. -/
def SplitAlike (function : String) (columns : Text) : Prop :=
  Backend.parseArguments function columns = Frontend.parseArguments function columns ∧
    (isQuoting function → ∃ pieces, SplitsOutside columns pieces ∧
      Backend.parseArguments function columns = (pieces.map strip).filter (· ≠ []))

theorem filter_map_strip_eq_iff (pieces : List Text) :
    (pieces.map strip).filter (· ≠ []) = pieces.map trim ↔ ∀ piece ∈ pieces, HasContent piece := by
  simp only [hasContent_iff]
  constructor
  · intro heq
    have hlength : ((pieces.map strip).filter (· ≠ [])).length = (pieces.map strip).length := by
      rw [heq, List.length_map, List.length_map]
    have hne := List.length_filter_eq_length_iff.mp hlength
    rw [List.filter_eq_self.mpr hne, List.map_inj_left] at heq
    exact fun piece hpiece ↦
      ⟨of_decide_eq_true (hne _ (List.mem_map_of_mem hpiece)), heq piece hpiece⟩
  · intro h
    rw [List.filter_eq_self.mpr, List.map_inj_left]
    · exact fun piece hpiece ↦ (h piece hpiece).2
    · rw [List.forall_mem_map]
      exact fun piece hpiece ↦ decide_eq_true (h piece hpiece).1

theorem filter_map_argumentPieces (pieces : List Text) :
    ((argumentPieces pieces).map strip).filter (· ≠ []) = (pieces.map strip).filter (· ≠ []) := by
  rw [argumentPieces]
  split
  next hblank =>
    induction pieces using List.reverseRecOn with
    | nil => rfl
    | append_singleton pieces piece _ =>
      rw [List.getLastD_concat] at hblank
      have hstrip : strip piece = [] := by
        rw [strip, ← stripped_dropWhile rfl, List.dropWhile_eq_nil_iff.mpr]
        · rfl
        · exact List.all_eq_true.mp hblank
      rw [List.dropLast_concat, List.map_append, List.map_singleton, hstrip, List.filter_append]
      simp
  next => rfl

theorem splitAlike_nil (function : String) : SplitAlike function [] := by
  have hbackend : Backend.parseArguments function [] = [] := by
    rw [Backend.parseArguments, if_pos (.inr rfl)]
    rfl
  have hfrontend : Frontend.parseArguments function [] = [] := by
    rw [Frontend.parseArguments, if_pos (.inr rfl)]
    rfl
  refine ⟨hbackend.trans hfrontend.symm, fun _ ↦ ⟨[[]], ?_, hbackend⟩⟩
  exact .last (.inl (.unquoted nofun List.not_mem_nil))

theorem splitAlike_of_quoting {function : String} {columns : Text} (hquoting : isQuoting function)
    (hne : columns ≠ []) :
    SplitAlike function columns ↔ ∀ pieces, SplitsOutside columns pieces →
      ∀ piece ∈ argumentPieces pieces, HasContent piece := by
  have hscans : ¬ (¬ isQuoting function = true ∨ columns.length = 0) := by
    rw [List.length_eq_zero_iff, not_or, not_not]
    exact ⟨hquoting, hne⟩
  obtain ⟨pieces, hsplits, hbackend⟩ := @exists_scanArguments isSpace rfl columns
  obtain ⟨pieces', hsplits', hfrontend⟩ := @exists_scanArguments isTrimmed rfl columns
  obtain rfl := hsplits.unique hsplits'
  have hpieces : Backend.parseArguments function columns = (pieces.map strip).filter (· ≠ []) := by
    rw [Backend.parseArguments, if_neg hscans, hbackend, ← filter_map_argumentPieces]
    rfl
  have halike : SplitAlike function columns ↔
      ((argumentPieces pieces).map strip).filter (· ≠ []) = (argumentPieces pieces).map trim := by
    rw [SplitAlike, Frontend.parseArguments, if_neg hscans, hfrontend, hpieces,
      filter_map_argumentPieces]
    exact and_iff_left fun _ ↦ ⟨pieces, hsplits, rfl⟩
  rw [halike, filter_map_strip_eq_iff]
  constructor
  · intro h other hother
    rwa [hother.unique hsplits]
  · exact fun h ↦ h pieces hsplits

theorem splitAlike_of_not_quoting {function : String} {columns : Text}
    (hquoting : ¬ isQuoting function) (hne : columns ≠ []) :
    SplitAlike function columns ↔ ∀ piece ∈ columns.splitOn ',', HasContent piece := by
  have hbackend : Backend.parseArguments function columns =
      ((columns.splitOn ',').map strip).filter (· ≠ []) := by
    rw [Backend.parseArguments, if_pos (.inl hquoting), List.filter_map]
    simp [Function.comp_def, List.length_pos_iff]
  rw [SplitAlike, hbackend, Frontend.parseArguments, if_pos (.inl hquoting), if_pos hne,
    filter_map_strip_eq_iff]
  exact and_iff_left fun h ↦ absurd h hquoting

/-- The languages split the arguments alike if and only if no argument is empty, or has white space
of only one of them at its ends. -/
theorem splitAlike_iff (function : String) (columns : Text) :
    SplitAlike function columns ↔ ArgumentsHaveContent function columns := by
  rw [ArgumentsHaveContent]
  by_cases hnil : columns = []
  · rw [hnil]
    exact iff_of_true (splitAlike_nil function) (.inl rfl)
  · by_cases hquoting : isQuoting function
    · rw [splitAlike_of_quoting hquoting hnil, if_pos hquoting, or_iff_right hnil]
    · rw [splitAlike_of_not_quoting hquoting hnil, if_neg hquoting, or_iff_right hnil]

/-- An empty argument is dropped by the one and kept by the other. -/
theorem emptyArgument_not_splitAlike :
    Backend.parseArguments "percentile" "a,,0.5".toList = ["a".toList, "0.5".toList] ∧
      Frontend.parseArguments "percentile" "a,,0.5".toList = ["a".toList, [], "0.5".toList] ∧
      ¬ SplitAlike "percentile" "a,,0.5".toList := by
  have hbackend : Backend.parseArguments "percentile" "a,,0.5".toList =
      ["a".toList, "0.5".toList] := by
    decide
  have hfrontend : Frontend.parseArguments "percentile" "a,,0.5".toList =
      ["a".toList, [], "0.5".toList] := by
    decide
  refine ⟨hbackend, hfrontend, fun halike ↦ ?_⟩
  have heq := halike.1
  rw [hbackend, hfrontend] at heq
  nomatch heq

end Sentry.Search.FunctionArguments
