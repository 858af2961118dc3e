import Sentry.EventSearch.WildcardScan

/-!
# The regular expression of a wildcard

In the pieces of a value that are no wildcards, metacharacters are escaped (`unescaped`, `guarded`).
They are read as literals (`readLiteral`), and the expression compiles exactly if all are
(`parse_translateWildcard`). It matches a text without newlines if a word of the literals is a
prefix, a suffix or an infix of it (`matchFrom_items`).
-/

namespace Sentry.EventSearch

open List
open Library Library.Regex Library.Repetition

variable {value text : List Char} {pieces rest : List Regex.Token} {kind : WildcardKind}

/-! ### The tokens of the expression -/

/-- `re.escape` drops the backslash before a character that needs none. -/
def unescaped : Regex.Token → Regex.Token
  | .bare c => .bare c
  | .escaped c => if c ∈ specialChars then .escaped c else .bare c

def guarded : Regex.Token → Regex.Token
  | .bare c => if c ∈ metacharacters then .escaped c else .bare c
  | .escaped c => .escaped c

def literalTokens (value : List Char) : List Regex.Token :=
  ((tokens value).filter (· ≠ .bare '*')).map unescaped

def opening : WildcardKind → List Regex.Token
  | .suffixKind | .infixKind => [.bare '.', .bare '*']
  | _ => []

def closing : WildcardKind → List Regex.Token
  | .prefixKind | .infixKind => [.bare '.', .bare '*']
  | _ => []

theorem mem_specialChars_of_mem_metacharacters {c : Char} (h : c ∈ metacharacters) :
    c ∈ specialChars := by
  have hsubset : metacharacters ⊆ specialChars := by decide
  exact hsubset h

theorem mem_metacharacters_of_mem_operators {c : Char} (h : c ∈ operators) :
    c ∈ metacharacters := by
  have hsubset : operators ⊆ metacharacters := by decide
  exact hsubset h

/-- What `translate_wildcard` makes of a piece. -/
def translatePiece : Regex.Token → List Char
  | .bare c => if c = '*' then ['.', '*'] else if c ∈ metacharacters then escape c else [c]
  | .escaped c => escape c

theorem translateCharacters_eq (value : List Char) :
    translateCharacters value = (tokens value).flatMap translatePiece := by
  fun_induction tokens value with
  | case1 => rfl
  | case2 c =>
    rw [translateCharacters, flatMap_singleton]
    rfl
  | case3 d rest ih =>
    rw [translateCharacters, if_pos rfl, ih]
    rfl
  | case4 c d rest hbackslash ih =>
    rw [translateCharacters, if_neg hbackslash, flatMap_cons, ← ih, translatePiece]
    split <;> rfl

theorem escape_eq (c : Char) : escape c = pieceText (unescaped (.escaped c)) := by
  rw [escape, unescaped]
  split <;> rfl

theorem guarded_unescaped_escaped (c : Char) :
    guarded (unescaped (.escaped c)) = unescaped (.escaped c) := by
  rw [unescaped]
  split
  next => rfl
  next h => exact if_neg fun hmeta ↦ h (mem_specialChars_of_mem_metacharacters hmeta)

variable {piece : Regex.Token}

theorem translatePiece_eq (h : piece ≠ .bare '*') :
    translatePiece piece = pieceText (guarded (unescaped piece)) := by
  cases piece with
  | bare c =>
    rw [translatePiece, if_neg fun heq ↦ h (by rw [heq]), unescaped, guarded]
    split
    next hmeta =>
      rw [escape, if_pos (mem_specialChars_of_mem_metacharacters hmeta)]
      rfl
    next => rfl
  | escaped c => rw [guarded_unescaped_escaped, ← escape_eq, translatePiece]

theorem tokens_flatMap_pieceText (h : .bare '\\' ∉ pieces) :
    tokens (pieces.flatMap pieceText) = pieces := by
  induction pieces with
  | nil => rfl
  | cons piece pieces ih =>
    have hpieces := ih (not_mem_of_not_mem_cons h)
    rw [flatMap_cons]
    cases piece with
    | bare c =>
      have hbackslash : c ≠ '\\' := fun heq ↦ h (by rw [heq]; exact mem_cons_self)
      cases hrest : pieces.flatMap pieceText with
      | nil =>
        rw [hrest] at hpieces
        rw [← hpieces]
        rfl
      | cons d rest =>
        rw [← hrest, pieceText, singleton_append, hrest, tokens, if_neg hbackslash, ← hrest,
          hpieces]
    | escaped c =>
      rw [pieceText, cons_append, singleton_append, tokens, if_pos rfl, hpieces]

theorem guarded_ne_backslash (token : Regex.Token) : guarded token ≠ .bare '\\' := by
  cases token with
  | bare c =>
    rw [guarded]
    split
    next => exact Regex.Token.noConfusion
    next h =>
      intro heq
      rw [Regex.Token.bare.inj heq] at h
      exact h (by decide)
  | escaped c => exact Regex.Token.noConfusion

theorem flatMap_translatePiece (h : .bare '*' ∉ pieces) :
    pieces.flatMap translatePiece = ((pieces.map unescaped).map guarded).flatMap pieceText := by
  rw [map_map, flatMap_map]
  refine flatMap_congr fun piece hpiece ↦ translatePiece_eq fun heq ↦ h ?_
  rwa [← heq]

theorem filter_surround {inner : List Regex.Token} (hkind : kind ≠ .other) (h : .bare '*' ∉ inner) :
    (surround kind inner).filter (· ≠ .bare '*') = inner := by
  have hinner : inner.filter (· ≠ .bare '*') = inner := filter_eq_self.mpr fun piece hpiece ↦
    decide_eq_true fun heq ↦ h (by rwa [← heq])
  cases kind with
  | prefixKind | suffixKind | infixKind => simpa [surround] using hinner
  | other => exact absurd rfl hkind

theorem tokens_translateWildcard (h : classifyWildcard value ≠ .other) :
    tokens (translateWildcard value) =
      .bare '^' :: (opening (classifyWildcard value) ++
        ((literalTokens value).map guarded ++
          (closing (classifyWildcard value) ++ [.bare '$']))) := by
  obtain ⟨inner, hsurround, hinner⟩ := eq_surround h
  rw [literalTokens, translateWildcard, translateCharacters_eq, hsurround, filter_surround h hinner]
  generalize classifyWildcard value = kind at h
  have htext : '^' :: (surround kind inner).flatMap translatePiece ++ ['$'] =
      (.bare '^' :: (opening kind ++ ((inner.map unescaped).map guarded ++
        (closing kind ++ [.bare '$'])))).flatMap pieceText := by
    cases kind with
    | other => exact absurd rfl h
    | _ =>
      simp only [surround, opening, closing, flatMap_cons, flatMap_append,
        cons_append, flatMap_translatePiece hinner, append_assoc, nil_append]
      rfl
  rw [htext, tokens_flatMap_pieceText]
  have hguarded : .bare '\\' ∉ (inner.map unescaped).map guarded := by
    intro hmem
    obtain ⟨token, -, heq⟩ := mem_map.mp hmem
    exact guarded_ne_backslash token heq
  have hends : .bare '\\' ∉ opening kind ∧ .bare '\\' ∉ closing kind ++ [.bare '$'] := by
    cases kind <;> decide
  rw [mem_cons, mem_append, mem_append, not_or, not_or, not_or]
  exact ⟨by decide, hends.1, hguarded, hends.2⟩

/-! ### The literals -/

def readBraces : List Regex.Token → Option ((Option ℕ × Option ℕ) × List Regex.Token)
  | .bare '\x7b' :: rest => readBounds rest
  | _ => none

def readLiteral : List Regex.Token → Option (Literal × List Regex.Token)
  | [] => none
  | piece :: rest =>
    if (readBraces (piece :: rest)).isSome then none
    else match readBraces rest with
    | none => some (⟨pieceChar piece, 1, some 1⟩, rest)
    | some ((least, most), rest) =>
      if validBounds least most then some (⟨pieceChar piece, least.getD 0, most⟩, rest) else none

def literalsOf (value : List Char) : Option (List Literal) :=
  match many readLiteral (literalTokens value) with
  | (literals, []) => some literals
  | (_, _ :: _) => none

def FollowsLiterals (tail : List Regex.Token) : Prop :=
  ∃ rest, tail = .bare '.' :: rest ∨ tail = .bare '$' :: rest

def Literally : Regex.Token → Prop
  | .bare c => c ≠ '*'
  | .escaped c => c ∈ specialChars

variable {tail : List Regex.Token}

theorem guarded_eq_bare_iff {token : Regex.Token} {c : Char} (h : c ∉ metacharacters) :
    guarded token = .bare c ↔ token = .bare c := by
  cases token with
  | escaped d => simp [guarded]
  | bare d =>
    rw [guarded]
    split
    next hmeta =>
      refine iff_of_false Regex.Token.noConfusion fun heq ↦ h ?_
      rwa [← Regex.Token.bare.inj heq]
    next => exact Iff.rfl

theorem readDigits_cons_of_forall_ne {token : Regex.Token}
    (h : ∀ c : Char, c.isDigit = true → token ≠ .bare c) :
    readDigits (token :: rest) = ([], token :: rest) := by
  cases token with
  | bare c =>
    rw [readDigits, if_neg]
    exact fun hdigit ↦ h c hdigit rfl
  | escaped c => rfl

theorem readDigits_carried (htail : FollowsLiterals tail) (pieces : List Regex.Token) :
    readDigits (pieces.map guarded ++ tail) =
      ((readDigits pieces).1, (readDigits pieces).2.map guarded ++ tail) := by
  induction pieces with
  | nil =>
    obtain ⟨rest, rfl | rfl⟩ := htail
    · rfl
    · rfl
  | cons piece pieces ih =>
    by_cases hdigit : ∃ c : Char, c.isDigit = true ∧ piece = .bare c
    · obtain ⟨c, hc, rfl⟩ := hdigit
      have hguarded : guarded (.bare c) = .bare c := by
        refine if_neg fun hmeta ↦ ?_
        have hnone : ∀ d ∈ metacharacters, d.isDigit = false := by decide
        rw [hnone c hmeta] at hc
        exact absurd hc Bool.false_ne_true
      rw [map_cons, hguarded, cons_append, readDigits, if_pos hc, readDigits, if_pos hc, ih]
    · rw [map_cons, cons_append, readDigits_cons_of_forall_ne, readDigits_cons_of_forall_ne]
      · rfl
      · exact fun c hc heq ↦ hdigit ⟨c, hc, heq⟩
      · intro c hc heq
        refine hdigit ⟨c, hc, (guarded_eq_bare_iff fun hmeta ↦ ?_).mp heq⟩
        have hnone : ∀ d ∈ metacharacters, d.isDigit = false := by decide
        rw [hnone c hmeta] at hc
        exact absurd hc Bool.false_ne_true

variable {least : List Char}

theorem readBounds_of_comma (left : List Regex.Token)
    (h : readDigits pieces = (least, .bare ',' :: left)) :
    readBounds pieces = match readDigits left with
      | (most, .bare '\x7d' :: rest) => some ((bound least, bound most), rest)
      | _ => none := by
  rw [readBounds, h]
  rfl

theorem readBounds_of_brace (left : List Regex.Token)
    (h : readDigits pieces = (least, .bare '\x7d' :: left)) :
    readBounds pieces = if least = [] then none else some ((bound least, bound least), left) := by
  rw [readBounds, h]
  rfl

theorem readBounds_of_neither {left : List Regex.Token}
    (h : readDigits pieces = (least, left)) (hcomma : left.head? ≠ some (.bare ','))
    (hbrace : left.head? ≠ some (.bare '\x7d')) : readBounds pieces = none := by
  rw [readBounds, h]
  split
  next heq => exact absurd (by rw [(Prod.mk.inj heq).2]; rfl) hcomma
  next heq => exact absurd (by rw [(Prod.mk.inj heq).2]; rfl) hbrace
  next => rfl

theorem head?_carried_ne (htail : FollowsLiterals tail) {left : List Regex.Token} {c : Char}
    (hc : c ∉ metacharacters) (h : left.head? ≠ some (.bare c)) :
    (left.map guarded ++ tail).head? ≠ some (.bare c) := by
  cases left with
  | nil =>
    obtain ⟨rest, rfl | rfl⟩ := htail
    all_goals exact fun heq ↦ hc (by rw [← Regex.Token.bare.inj (Option.some.inj heq)]; decide)
  | cons token left =>
    exact fun heq ↦ h (congrArg some ((guarded_eq_bare_iff hc).mp (Option.some.inj heq)))

theorem readBounds_carried (htail : FollowsLiterals tail) (pieces : List Regex.Token) :
    readBounds (pieces.map guarded ++ tail) =
      (readBounds pieces).map fun reading ↦ (reading.1, reading.2.map guarded ++ tail) := by
  have hcarried := readDigits_carried htail pieces
  cases hdigits : readDigits pieces with
  | mk least left =>
    rw [hdigits] at hcarried
    by_cases hcomma : left.head? = some (.bare ',')
    · obtain ⟨left, rfl⟩ := head?_eq_some_iff.mp hcomma
      rw [readBounds_of_comma left hdigits,
        readBounds_of_comma (left.map guarded ++ tail) hcarried, readDigits_carried htail left]
      generalize readDigits left = reading
      obtain ⟨most, left⟩ := reading
      by_cases hbrace : left.head? = some (.bare '\x7d')
      · obtain ⟨left, rfl⟩ := head?_eq_some_iff.mp hbrace
        rfl
      · have hcarriedBrace := head?_carried_ne htail (by decide) hbrace
        split
        next heq => exact absurd (by rw [(Prod.mk.inj heq).2]; rfl) hcarriedBrace
        next =>
          split
          next heq => exact absurd (by rw [(Prod.mk.inj heq).2]; rfl) hbrace
          next => rfl
    · by_cases hbrace : left.head? = some (.bare '\x7d')
      · obtain ⟨left, rfl⟩ := head?_eq_some_iff.mp hbrace
        rw [readBounds_of_brace left hdigits,
          readBounds_of_brace (left.map guarded ++ tail) hcarried]
        split <;> rfl
      · rw [readBounds_of_neither hdigits hcomma hbrace, readBounds_of_neither hcarried
          (head?_carried_ne htail (by decide) hcomma) (head?_carried_ne htail (by decide) hbrace)]
        rfl

theorem readRepeat_carried (htail : FollowsLiterals tail) (h : ∀ piece ∈ pieces, Literally piece) :
    readRepeat (pieces.map guarded ++ tail) =
      (readBraces pieces).map fun reading ↦ (reading.1, reading.2.map guarded ++ tail) := by
  cases pieces with
  | nil =>
    obtain ⟨rest, rfl | rfl⟩ := htail
    · rfl
    · rfl
  | cons piece pieces =>
    by_cases hbrace : piece = .bare '\x7b'
    · rw [hbrace]
      exact readBounds_carried htail pieces
    · have hstar : guarded piece ≠ .bare '*' := by
        intro heq
        have hpiece := h piece mem_cons_self
        cases piece with
        | bare c =>
          rw [guarded] at heq
          split at heq
          next => exact Regex.Token.noConfusion heq
          next => exact hpiece (Regex.Token.bare.inj heq)
        | escaped c => exact Regex.Token.noConfusion heq
      have hguarded : guarded piece ≠ .bare '\x7b' :=
        fun heq ↦ hbrace ((guarded_eq_bare_iff (by decide)).mp heq)
      rw [map_cons, cons_append, readRepeat, readBraces]
      · rfl
      · exact fun rest heq ↦ hbrace (List.cons.inj heq).1
      · exact fun rest heq ↦ hstar (List.cons.inj heq).1
      · exact fun rest heq ↦ hguarded (List.cons.inj heq).1

theorem atom_guarded (h : Literally piece) :
    atom (guarded piece) = some (.literal (pieceChar piece)) := by
  cases piece with
  | escaped c => exact if_pos h
  | bare c =>
    rw [guarded]
    split
    next hmeta => exact if_pos (mem_specialChars_of_mem_metacharacters hmeta)
    next hmeta =>
      have hoperator : c ∉ operators := fun hmem ↦ hmeta (mem_metacharacters_of_mem_operators hmem)
      rw [atom, if_neg, if_neg hoperator]
      · rfl
      · intro hdot
        exact hoperator (by rw [hdot]; decide)

theorem readItem_carried (htail : FollowsLiterals tail)
    (h : ∀ other ∈ piece :: pieces, Literally other) :
    readItem ((piece :: pieces).map guarded ++ tail) =
      (readLiteral (piece :: pieces)).map fun reading ↦
        (reading.1.item, reading.2.map guarded ++ tail) := by
  have hanchor : ∀ c ∈ metacharacters, guarded piece ≠ .bare c := by
    intro c hc heq
    cases piece with
    | escaped d => exact Regex.Token.noConfusion heq
    | bare d =>
      rw [guarded] at heq
      split at heq
      next => exact Regex.Token.noConfusion heq
      next hmeta => exact hmeta (by rwa [Regex.Token.bare.inj heq])
  have hfirst := readRepeat_carried htail h
  have hpieces : ∀ other ∈ pieces, Literally other :=
    fun other hother ↦ h other (mem_cons_of_mem _ hother)
  have hnext := readRepeat_carried htail hpieces
  rw [map_cons, cons_append] at hfirst ⊢
  rw [readItem, if_neg (hanchor _ (by decide)), if_neg (hanchor _ (by decide)), hfirst,
    Option.isSome_map, readLiteral]
  split
  next => rfl
  next =>
    rw [readAtom, atom_guarded (h piece mem_cons_self), Option.bind_some, hnext]
    cases readBraces pieces with
    | none => rfl
    | some reading =>
      obtain ⟨⟨least, most⟩, rest⟩ := reading
      show (if validBounds least most then _ else _) =
        Option.map _ (if validBounds least most then _ else _)
      split <;> rfl

/-! ### Compiling -/

variable {list : List Regex.Token}

theorem readBraces_eq_append {bounds : Option ℕ × Option ℕ}
    (h : readBraces list = some (bounds, rest)) :
    ∃ braces, list = braces ++ rest ∧ .bare '\x7b' ∈ braces ∧ .bare '\x7d' ∈ braces := by
  unfold readBraces at h
  split at h
  next left =>
    obtain ⟨braces, rfl, hbrace⟩ := readBounds_eq_append h
    exact ⟨.bare '\x7b' :: braces, rfl, mem_cons_self, mem_cons_of_mem _ hbrace⟩
  next => exact absurd h.symm (Option.some_ne_none _)

theorem readLiteral_cases {literal : Literal} (h : readLiteral list = some (literal, rest)) :
    readBraces list = none ∧
      ((readBraces rest = none ∧ ∃ piece, list = piece :: rest ∧
        literal = ⟨pieceChar piece, 1, some 1⟩) ∨
      ∃ piece braces bounds, list = piece :: (braces ++ rest) ∧
        readBraces (braces ++ rest) = some (bounds, rest) ∧
        .bare '\x7b' ∈ braces ∧ .bare '\x7d' ∈ braces ∧
        literal = ⟨pieceChar piece, bounds.1.getD 0, bounds.2⟩ ∧
        validBounds bounds.1 bounds.2) := by
  cases list with
  | nil => exact absurd h.symm (Option.some_ne_none _)
  | cons piece list =>
    rw [readLiteral] at h
    split at h
    next => exact absurd h.symm (Option.some_ne_none _)
    next hnone =>
      refine ⟨Option.not_isSome_iff_eq_none.mp hnone, ?_⟩
      split at h
      next hbraces =>
        obtain ⟨rfl, rfl⟩ := Prod.mk.inj (Option.some.inj h)
        exact Or.inl ⟨hbraces, piece, rfl, rfl⟩
      next least most left hbraces =>
        split at h
        next hvalid =>
          obtain ⟨rfl, rfl⟩ := Prod.mk.inj (Option.some.inj h)
          obtain ⟨braces, rfl, hopen, hclose⟩ := readBraces_eq_append hbraces
          exact Or.inr ⟨piece, braces, (least, most), rfl, hbraces, hopen, hclose, rfl, hvalid⟩
        next => exact absurd h.symm (Option.some_ne_none _)

theorem shortens_readLiteral : Shortens readLiteral := by
  intro list literal rest h
  obtain ⟨-, ⟨-, piece, rfl, -⟩ | ⟨piece, braces, bounds, rfl, -⟩⟩ := readLiteral_cases h
  · exact Nat.lt_succ_self _
  · rw [length_cons, length_append]
    omega

theorem mem_of_readLiteral {literal : Literal}
    (h : readLiteral list = some (literal, rest)) (hpiece : piece ∈ rest) :
    piece ∈ list := by
  obtain ⟨-, ⟨-, first, rfl, -⟩ | ⟨first, braces, bounds, rfl, -⟩⟩ := readLiteral_cases h
  · exact mem_cons_of_mem _ hpiece
  · exact mem_cons_of_mem _ (mem_append_right _ hpiece)

theorem many_readItem_carried (htail : FollowsLiterals tail) (list : List Regex.Token) :
    (∀ piece ∈ list, Literally piece) →
    many readItem (list.map guarded ++ tail) =
      if (many readLiteral list).2 = [] then
        ((many readLiteral list).1.map Literal.item ++ (many readItem tail).1,
          (many readItem tail).2)
      else ((many readLiteral list).1.map Literal.item,
        (many readLiteral list).2.map guarded ++ tail) := by
  refine many_induction shortens_readLiteral
    (motive := fun list literals left ↦ (∀ piece ∈ list, Literally piece) →
      many readItem (list.map guarded ++ tail) =
        if left = [] then (literals.map Literal.item ++ (many readItem tail).1,
          (many readItem tail).2)
        else (literals.map Literal.item, left.map guarded ++ tail)) ?_ ?_ list
  · intro list hnone hliterally
    cases list with
    | nil => rfl
    | cons piece list =>
      rw [if_neg (cons_ne_nil _ _), many_of_none]
      · rfl
      · rw [readItem_carried htail hliterally, hnone]
        rfl
  · intro list literal rest literals left hread ih hliterally
    have hitem : readItem (list.map guarded ++ tail) =
        some (literal.item, rest.map guarded ++ tail) := by
      cases list with
      | nil => exact absurd hread.symm (Option.some_ne_none _)
      | cons piece list =>
        rw [readItem_carried htail hliterally, hread]
        rfl
    rw [many_of_some shortens_readItem hitem,
      ih fun piece hpiece ↦ hliterally piece (mem_of_readLiteral hread hpiece)]
    split <;> rfl

/-- The items of the expression. -/
def items (kind : WildcardKind) (literals : List Literal) : List Item :=
  .start :: ((if opening kind = [] then [] else [.repeated .any 0 none]) ++
    (literals.map Literal.item ++
      ((if closing kind = [] then [] else [.repeated .any 0 none]) ++ [.finish])))

theorem many_readItem_closing (kind : WildcardKind) :
    many readItem (closing kind ++ [.bare '$']) =
      ((if closing kind = [] then [] else [.repeated .any 0 none]) ++ [.finish], []) := by
  cases kind <;> rfl

theorem followsLiterals_closing (kind : WildcardKind) :
    FollowsLiterals (closing kind ++ [.bare '$']) := by
  cases kind with
  | prefixKind | infixKind => exact ⟨_, Or.inl rfl⟩
  | suffixKind | other => exact ⟨_, Or.inr rfl⟩

theorem many_readItem_opening (kind : WildcardKind) (list : List Regex.Token) :
    many readItem (opening kind ++ list) =
      ((if opening kind = [] then [] else [.repeated .any 0 none]) ++ (many readItem list).1,
        (many readItem list).2) := by
  have hdots : many readItem (.bare '.' :: .bare '*' :: list) =
      (.repeated .any 0 none :: (many readItem list).1, (many readItem list).2) :=
    many_of_some shortens_readItem rfl
  cases kind with
  | prefixKind | other => rfl
  | infixKind | suffixKind => exact hdots

theorem literally_unescaped (h : piece ≠ .bare '*') : Literally (unescaped piece) := by
  cases piece with
  | bare c => exact fun heq ↦ h (by rw [heq])
  | escaped c =>
    rw [unescaped]
    split
    next hspecial => exact hspecial
    next hspecial =>
      intro heq
      rw [heq] at hspecial
      exact hspecial (by decide)

theorem literally_of_mem_literalTokens (h : piece ∈ literalTokens value) : Literally piece := by
  obtain ⟨other, hother, rfl⟩ := mem_map.mp h
  exact literally_unescaped (by simpa using (mem_filter.mp hother).2)

theorem parse_translateWildcard (h : classifyWildcard value ≠ .other) :
    parse (translateWildcard value) = (literalsOf value).map (items (classifyWildcard value)) := by
  generalize hkind : classifyWildcard value = kind at h
  have htokens := tokens_translateWildcard (hkind.trans_ne h)
  rw [hkind] at htokens
  have hliterals := many_readItem_carried (followsLiterals_closing kind) (literalTokens value)
    fun piece ↦ literally_of_mem_literalTokens
  have hmany := many_of_some shortens_readItem (congrArg readItem htokens)
  rw [many_readItem_opening, hliterals, many_readItem_closing] at hmany
  rw [parse, hmany, literalsOf]
  cases hread : many readLiteral (literalTokens value) with
  | mk literals left =>
    cases left with
    | nil | cons => rfl

/-! ### Matching -/

def Reaches : WildcardKind → List Char → List Char → Prop
  | .prefixKind, word, text => word <+: text
  | .suffixKind, word, text => word <:+ text
  | .infixKind, word, text => word <:+: text
  | .other, word, text => word = text

theorem matchFrom_dots {rest : List Item} {atStart : Bool} (htext : '\n' ∉ text)
    (hrest : .start ∉ rest) :
    matchFrom (.repeated .any 0 none :: rest) atStart text ↔
      ∃ taken left, text = taken ++ left ∧ matchFrom rest true left := by
  rw [matchFrom_repeated]
  constructor
  · rintro ⟨taken, left, rfl, -, -, -, hmatch⟩
    rw [matchFrom_eq_of_not_mem hrest _ true] at hmatch
    exact ⟨taken, left, rfl, hmatch⟩
  · rintro ⟨taken, left, rfl, hmatch⟩
    refine ⟨taken, left, rfl, Nat.zero_le _, fun bound hbound ↦ ?_, fun c hc ↦ ?_, ?_⟩
    · exact absurd hbound.symm (Option.some_ne_none _)
    · refine decide_eq_true fun heq ↦ htext (mem_append_left _ ?_)
      rwa [← heq]
    · rwa [matchFrom_eq_of_not_mem hrest _ true]

theorem matchFrom_finish {atStart : Bool} (htext : '\n' ∉ text) :
    matchFrom [.finish] atStart text ↔ text = [] := by
  have hnewline : text ≠ ['\n'] := fun heq ↦ htext (by rw [heq]; exact mem_singleton_self _)
  simp [matchFrom, hnewline]

theorem matchFrom_opening {rest : List Item} (htext : '\n' ∉ text) (hrest : .start ∉ rest) :
    matchFrom ((if opening kind = [] then [] else [.repeated .any 0 none]) ++ rest) true text ↔
      ∃ taken left, text = taken ++ left ∧ (opening kind = [] → taken = []) ∧
        matchFrom rest true left := by
  split
  next hnil =>
    constructor
    · exact fun hmatch ↦ ⟨[], text, rfl, fun _ ↦ rfl, hmatch⟩
    · rintro ⟨taken, left, rfl, htaken, hmatch⟩
      rw [htaken hnil]
      exact hmatch
  next hne =>
    rw [singleton_append, matchFrom_dots htext hrest]
    simp [hne]

theorem matchFrom_closing {atStart : Bool} (htext : '\n' ∉ text) :
    matchFrom ((if closing kind = [] then [] else [.repeated .any 0 none]) ++ [.finish]) atStart
      text ↔ (closing kind = [] → text = []) := by
  split
  next hnil =>
    rw [nil_append, matchFrom_finish htext]
    exact ⟨fun h _ ↦ h, fun h ↦ h hnil⟩
  next hne =>
    rw [singleton_append, matchFrom_dots htext (by decide)]
    refine iff_of_true ⟨text, [], (append_nil text).symm, rfl⟩ fun hnil ↦ absurd hnil hne

theorem start_not_mem_items (kind : WildcardKind) (literals : List Literal) :
    .start ∉ literals.map Literal.item ++
      ((if closing kind = [] then [] else [.repeated .any 0 none]) ++ [.finish]) := by
  rw [mem_append, not_or]
  refine ⟨fun hmem ↦ ?_, by split <;> decide⟩
  obtain ⟨literal, -, heq⟩ := mem_map.mp hmem
  exact Item.noConfusion heq

theorem matchFrom_items {literals : List Literal} (hkind : kind ≠ .other) (htext : '\n' ∉ text) :
    matchFrom (items kind literals) true text ↔
      ∃ word, IsWord literals word ∧ Reaches kind word text := by
  have hparts : matchFrom (items kind literals) true text ↔
      ∃ word, IsWord literals word ∧ ∃ taken left, text = taken ++ (word ++ left) ∧
        (opening kind = [] → taken = []) ∧ (closing kind = [] → left = []) := by
    rw [items, matchFrom, Bool.true_and,
      matchFrom_opening htext (start_not_mem_items kind literals)]
    constructor
    · rintro ⟨taken, _, rfl, htaken, hmatch⟩
      obtain ⟨word, left, rfl, hword, hleft⟩ := matchFrom_literals.mp hmatch
      simp only [mem_append, not_or] at htext
      exact ⟨word, hword, taken, left, rfl, htaken, (matchFrom_closing htext.2.2).mp hleft⟩
    · rintro ⟨word, hword, taken, left, rfl, htaken, hleft⟩
      simp only [mem_append, not_or] at htext
      exact ⟨taken, word ++ left, rfl, htaken, matchFrom_literals.mpr
        ⟨word, left, rfl, hword, (matchFrom_closing htext.2.2).mpr hleft⟩⟩
  rw [hparts]
  refine exists_congr fun word ↦ and_congr_right fun _ ↦ ?_
  cases kind with
  | prefixKind =>
    constructor
    · rintro ⟨taken, left, rfl, htaken, -⟩
      rw [htaken rfl]
      exact ⟨left, rfl⟩
    · rintro ⟨left, rfl⟩
      exact ⟨[], left, rfl, fun _ ↦ rfl, fun hnil ↦ absurd hnil (cons_ne_nil _ _)⟩
  | suffixKind =>
    constructor
    · rintro ⟨taken, left, rfl, -, hleft⟩
      rw [hleft rfl, append_nil]
      exact ⟨taken, rfl⟩
    · rintro ⟨taken, rfl⟩
      exact ⟨taken, [], by rw [append_nil], fun hnil ↦ absurd hnil (cons_ne_nil _ _), fun _ ↦ rfl⟩
  | infixKind =>
    constructor
    · rintro ⟨taken, left, rfl, -, -⟩
      exact ⟨taken, left, append_assoc _ _ _⟩
    · rintro ⟨taken, left, rfl⟩
      exact ⟨taken, left, append_assoc _ _ _, fun hnil ↦ absurd hnil (cons_ne_nil _ _),
        fun hnil ↦ absurd hnil (cons_ne_nil _ _)⟩
  | other => exact absurd rfl hkind

end Sentry.EventSearch
