import Mathlib.Data.List.Infix
import Sentry.TokenizeSearch.MutableSearch

/-!
# Removing a filter

`removeFilter` of `utils/tokenizeSearch.tsx` takes the filters of a key out of the tokens of a
search, and then the operators without operands and the parentheses with at most one term that this
leaves behind. `Grammatical` is the grammar of the tokens, which can be read from left to right with
the number of open parentheses and whether an operand has to come next (`Reads`).
-/

namespace Sentry.TokenizeSearch

open List

/-! ### The tokens that go -/

/-- `isOp` -/
def Token.isOp (token : Token) : Bool := token.type = .operator

/-- `isParen` -/
def Token.isParen (token : Token) (character : CodeUnit) : Bool :=
  token.isOp && token.value = [character]

/-- The test of `removeErroneousAndOrOps` on a token, between the one before and the one after. -/
def isErroneous (prev : Option Token) (token : Token) (next : Option Token) : Bool :=
  token.isOp && isBooleanOp token.value && (prev.all Token.isOp || next.all Token.isOp) &&
    !(prev.any (fun prev ↦ prev.isParen closeParen || !prev.isOp) &&
      next.any (fun next ↦ next.isParen openParen || !next.isOp))

/-- `toRemove`, counted from the first of the tokens. -/
def toRemove (prev : Option Token) : List Token → Option ℕ
  | [] => none
  | token :: rest =>
    if isErroneous prev token rest.head? then some 0 else (toRemove (some token) rest).map (· + 1)

theorem eraseIdx_length_append (left right : List Token) (token : Token) :
    (left ++ token :: right).eraseIdx left.length = left ++ right := by
  simp [eraseIdx_append_of_length_le]

variable {tokens : List Token} {prev : Option Token}

theorem exists_of_toRemove {i : ℕ} (h : toRemove prev tokens = some i) :
    ∃ left operator right, tokens = left ++ operator :: right ∧ left.length = i ∧
      operator.isOp ∧ isBooleanOp operator.value := by
  induction tokens generalizing prev i with
  | nil => simp [toRemove] at h
  | cons token rest ih =>
    by_cases herroneous : isErroneous prev token rest.head?
    · simp only [toRemove, herroneous, if_true, Option.some.injEq] at h
      simp only [isErroneous, Bool.and_eq_true] at herroneous
      exact ⟨[], token, rest, rfl, by simpa using h, herroneous.1.1⟩
    · simp only [toRemove, herroneous] at h
      obtain ⟨index, hindex, rfl⟩ := Option.map_eq_some_iff.mp h
      obtain ⟨left, operator, right, rfl, hlength, hoperator⟩ := ih hindex
      exact ⟨token :: left, operator, right, rfl, by simp [hlength], hoperator⟩

/-- `removeErroneousAndOrOps` -/
def removeErroneousAndOrOps (tokens : List Token) : List Token :=
  match h : toRemove none tokens with
  | none => tokens
  | some i => removeErroneousAndOrOps (tokens.eraseIdx i)
termination_by tokens.length
decreasing_by
  obtain ⟨left, operator, right, rfl, rfl, -⟩ := exists_of_toRemove h
  simp [eraseIdx_length_append]

/-- What the loop over `j` ends with: parentheses inside, more than one term or no parenthesis that
closes, or the one that does. -/
inductive Scan
  | nested (j : ℕ)
  | settled
  | closed (j : ℕ)

/-- The loop over `j`, with the tokens from there on. -/
def scan (j : ℕ) (alreadySeen : Bool) : List Token → Scan
  | [] => .settled
  | nextToken :: rest =>
    if nextToken.isParen openParen then .nested j
    else if !nextToken.isOp then
      if alreadySeen then .settled else scan (j + 1) true rest
    else if nextToken.isParen closeParen then .closed j
    else scan (j + 1) alreadySeen rest

/-- The loop over `i`, with the tokens from there on. -/
def parensToDelete (i : ℕ) : List Token → Option (ℕ × ℕ)
  | [] => none
  | token :: rest =>
    if !token.isParen openParen then parensToDelete (i + 1) rest
    else
      match scan (i + 1) false rest with
      | .nested j => parensToDelete j (rest.drop (j - (i + 1)))
      | .settled => parensToDelete (i + 1) rest
      | .closed j => some (i, j)
termination_by tokens => tokens.length

def Token.Plain (token : Token) : Prop :=
  token.isParen openParen = false ∧ token.isParen closeParen = false

variable {token : Token}

theorem plain_of_isOp_eq_false (h : token.isOp = false) : token.Plain := by
  simp [Token.Plain, Token.isParen, h]

variable {rest : List Token}

theorem exists_of_scan_closed {i j : ℕ} {alreadySeen : Bool}
    (h : scan i alreadySeen rest = .closed j) :
    ∃ inside closed right, rest = inside ++ closed :: right ∧ j = i + inside.length ∧
      (∀ token ∈ inside, token.Plain) ∧ closed.isParen closeParen := by
  induction rest generalizing i alreadySeen with
  | nil => simp [scan] at h
  | cons token rest ih =>
    have plain (hplain : token.Plain) {seen : Bool} (h : scan (i + 1) seen rest = .closed j) :
        ∃ inside closed right, token :: rest = inside ++ closed :: right ∧
          j = i + inside.length ∧ (∀ token ∈ inside, token.Plain) ∧ closed.isParen closeParen := by
      obtain ⟨inside, closed, right, rfl, rfl, hinside, hclosed⟩ := ih h
      exact ⟨token :: inside, closed, right, rfl, by simp; omega,
        forall_mem_cons.mpr ⟨hplain, hinside⟩, hclosed⟩
    by_cases hopen : token.isParen openParen
    · simp [scan, hopen] at h
    by_cases hop : token.isOp
    · by_cases hclose : token.isParen closeParen
      · exact ⟨[], token, rest, rfl, by simp_all [scan], by simp, hclose⟩
      · exact plain (by simp_all [Token.Plain]) (by simpa [scan, hopen, hop, hclose] using h)
    · cases alreadySeen with
      | true => simp [scan, hopen, hop] at h
      | false =>
        exact plain (plain_of_isOp_eq_false (by simpa using hop))
          (by simpa [scan, hopen, hop] using h)

theorem le_of_scan_nested {i j : ℕ} {alreadySeen : Bool}
    (h : scan i alreadySeen rest = .nested j) : i ≤ j ∧ j - i < rest.length := by
  induction rest generalizing i alreadySeen with
  | nil => simp [scan] at h
  | cons token rest ih =>
    simp only [scan] at h
    split_ifs at h
    · simp_all
    all_goals
      have := ih h
      simp
      omega

/-- The parentheses found are a pair with no other one between them. -/
theorem exists_of_parensToDelete {k i j : ℕ} (h : parensToDelete k tokens = some (i, j)) :
    ∃ left opened inside closed right,
      tokens = left ++ opened :: (inside ++ closed :: right) ∧ i = k + left.length ∧
        j = i + 1 + inside.length ∧ opened.isParen openParen ∧
          (∀ token ∈ inside, token.Plain) ∧ closed.isParen closeParen := by
  induction k, tokens using parensToDelete.induct with
  | case1 k => simp [parensToDelete] at h
  | case2 k token rest hopen ih =>
    obtain ⟨left, opened, inside, closed, right, rfl, rfl, hpair⟩ :=
      ih (by simpa [parensToDelete, hopen] using h)
    exact ⟨token :: left, opened, inside, closed, right, rfl, by simp; omega, hpair⟩
  | case3 k token rest hopen next hscan ih =>
    obtain ⟨left, opened, inside, closed, right, hrest, rfl, hpair⟩ :=
      ih (by simpa [parensToDelete, hopen, hscan] using h)
    have hnext := le_of_scan_nested hscan
    refine ⟨token :: rest.take (next - (k + 1)) ++ left, opened, inside, closed, right, ?_, ?_,
      hpair⟩
    · rw [cons_append, cons_append, append_assoc, ← hrest, take_append_drop]
    · simp
      omega
  | case4 k token rest hopen hscan ih =>
    obtain ⟨left, opened, inside, closed, right, rfl, rfl, hpair⟩ :=
      ih (by simpa [parensToDelete, hopen, hscan] using h)
    exact ⟨token :: left, opened, inside, closed, right, rfl, by simp; omega, hpair⟩
  | case5 k token rest hopen next hscan =>
    obtain ⟨inside, closed, right, rfl, hnext, hinside⟩ := exists_of_scan_closed hscan
    obtain ⟨rfl, rfl⟩ : k = i ∧ next = j := by simpa [parensToDelete, hopen, hscan] using h
    exact ⟨[], token, inside, closed, right, rfl, rfl, hnext, by simpa using hopen, hinside⟩

theorem eraseIdx_pair (left inside right : List Token) (opened closed : Token) :
    ((left ++ opened :: (inside ++ closed :: right)).eraseIdx
        (left.length + 1 + inside.length)).eraseIdx left.length = left ++ (inside ++ right) := by
  have h := eraseIdx_length_append (left ++ opened :: inside) right closed
  simp only [length_append, length_cons, append_assoc, cons_append] at h
  rw [show left.length + 1 + inside.length = left.length + (inside.length + 1) by omega, h,
    eraseIdx_length_append]

/-- The loop that filters by `cleanParens`; the later of the two parentheses goes first. -/
def removeParens (tokens : List Token) : List Token :=
  match h : parensToDelete 0 tokens with
  | none => tokens
  | some (i, j) => removeParens ((tokens.eraseIdx j).eraseIdx i)
termination_by tokens.length
decreasing_by
  obtain ⟨left, opened, inside, closed, right, rfl, rfl, rfl, -⟩ := exists_of_parensToDelete h
  simp only [Nat.zero_add, eraseIdx_pair, length_append, length_cons]
  omega

/-- `removeFilter`, of a key. -/
def removeFilter (key : Str) (tokens : List Token) : List Token :=
  removeErroneousAndOrOps (removeParens
    (removeErroneousAndOrOps (tokens.filter fun token ↦ token.key ≠ some key)))

/-! ### The grammar -/

/-- An operator, as `addOp` makes it. -/
def Token.op (value : Str) : Token := ⟨.operator, none, value⟩

/-- Queries: a filter or free text, a query in parentheses, and two queries one after the other,
with `AND` or `OR` between them or without. -/
inductive Grammatical : List Token → Prop
  | term {token : Token} : token.isOp = false → Grammatical [token]
  | parens {tokens : List Token} :
      Grammatical tokens → Grammatical (.op [openParen] :: (tokens ++ [.op [closeParen]]))
  | juxtaposed {left right : List Token} :
      Grammatical left → Grammatical right → Grammatical (left ++ right)
  | operator {left right : List Token} {value : Str} :
      isBooleanOp value → Grammatical left → Grammatical right →
        Grammatical (left ++ .op value :: right)

/-- The filters and the free text. -/
def terms (tokens : List Token) : List Token := tokens.filter fun token ↦ !token.isOp

/-- The tokens of the grammar. -/
inductive Token.Valid : Token → Prop
  | term {token : Token} : token.isOp = false → token.Valid
  | opened : (Token.op [openParen]).Valid
  | closed : (Token.op [closeParen]).Valid
  | operator {value : Str} : isBooleanOp value → (Token.op value).Valid

def depthStep (depth : ℕ) (token : Token) : Option ℕ :=
  if token.isParen openParen then some (depth + 1)
  else if token.isParen closeParen then if depth = 0 then none else some (depth - 1)
  else some depth

def Balanced (tokens : List Token) : Prop := tokens.foldlM depthStep 0 = some 0

/-- The rest of a query, of which `depth` parentheses are open; where `awaits` holds, an operand has
to come next. -/
def Reads (awaits : Bool) (depth : ℕ) : List Token → Prop
  | [] => awaits = false ∧ depth = 0
  | token :: rest =>
    if token.isParen openParen then Reads true (depth + 1) rest
    else if !token.isOp then Reads false depth rest
    else awaits = false ∧
      if token.isParen closeParen then depth ≠ 0 ∧ Reads false (depth - 1) rest
      else Reads true depth rest

/-! ### What the cleanup keeps -/

/-- `reduced` is what is left of `tokens`: all of the terms, and pairs of parentheses. -/
structure Reduces (tokens reduced : List Token) : Prop where
  subset : reduced ⊆ tokens
  terms_eq : terms reduced = terms tokens
  balanced : Balanced tokens → Balanced reduced

theorem Reduces.trans {first second third : List Token} (h : Reduces first second)
    (h' : Reduces second third) : Reduces first third where
  subset := Subset.trans h'.subset h.subset
  terms_eq := h'.terms_eq.trans h.terms_eq
  balanced := h'.balanced ∘ h.balanced

theorem Token.Plain.depthStep (h : token.Plain) (depth : ℕ) :
    depthStep depth token = some depth := by
  simp [TokenizeSearch.depthStep, h.1, h.2]

theorem foldlM_depthStep_of_plain (h : ∀ token ∈ tokens, token.Plain)
    (depth : ℕ) : tokens.foldlM depthStep depth = some depth := by
  induction tokens with
  | nil => rfl
  | cons token rest ih =>
    obtain ⟨htoken, hrest⟩ := forall_mem_cons.mp h
    simp [htoken.depthStep, ih hrest]

theorem plain_of_isBooleanOp (h : isBooleanOp token.value) : token.Plain := by
  suffices hne : ∀ char, token.value ≠ [char] by simp [Token.Plain, Token.isParen, hne]
  intro char hchar
  simp [isBooleanOp, toUpperCase, hchar] at h

theorem reduces_operator {left right : List Token} {operator : Token} (hop : operator.isOp)
    (hvalue : isBooleanOp operator.value) :
    Reduces (left ++ operator :: right) (left ++ right) where
  subset := by simp
  terms_eq := by simp [terms, hop]
  balanced h := by
    simpa [Balanced, foldlM_append, (plain_of_isBooleanOp hvalue).depthStep] using h

theorem isOp_of_isParen {character : CodeUnit} (h : token.isParen character) : token.isOp := by
  simp only [Token.isParen, Bool.and_eq_true] at h
  exact h.1

theorem not_isParen_of_isParen (h : token.isParen closeParen) :
    token.isParen openParen = false := by
  simp only [Token.isParen, Bool.and_eq_true, decide_eq_true_eq] at h
  simp [Token.isParen, h.2, openParen, closeParen]

theorem reduces_parens {left inside right : List Token} {opened closed : Token}
    (hopened : opened.isParen openParen) (hinside : ∀ token ∈ inside, token.Plain)
    (hclosed : closed.isParen closeParen) :
    Reduces (left ++ opened :: (inside ++ closed :: right)) (left ++ (inside ++ right)) where
  subset token := by
    simp only [mem_append, mem_cons]
    tauto
  terms_eq := by simp [terms, isOp_of_isParen hopened, isOp_of_isParen hclosed]
  balanced h := by
    have hdepth (depth : ℕ) : depthStep depth opened = some (depth + 1) := by
      simp [depthStep, hopened]
    have hback (depth : ℕ) : depthStep (depth + 1) closed = some depth := by
      simp [depthStep, hclosed, not_isParen_of_isParen hclosed]
    simpa [Balanced, foldlM_append, hdepth, hback, foldlM_depthStep_of_plain hinside] using h

def closesEmpty : List Token → Bool
  | [] => false
  | token :: rest =>
    token.isParen closeParen || token.isOp && !token.isParen openParen && closesEmpty rest

def NoEmptyParens : List Token → Prop
  | [] => True
  | token :: rest =>
    (token.isParen openParen → closesEmpty rest = false) ∧ NoEmptyParens rest

theorem closesEmpty_erase {operator : Token} (hop : operator.isOp)
    (hvalue : isBooleanOp operator.value) (left right : List Token) :
    closesEmpty (left ++ operator :: right) = closesEmpty (left ++ right) := by
  induction left with
  | nil =>
    have hplain := plain_of_isBooleanOp hvalue
    simp [closesEmpty, hop, hplain.1, hplain.2]
  | cons token rest ih => simp [closesEmpty, ih]

theorem NoEmptyParens.erase {operator : Token} (hop : operator.isOp)
    (hvalue : isBooleanOp operator.value) {left right : List Token}
    (h : NoEmptyParens (left ++ operator :: right)) : NoEmptyParens (left ++ right) := by
  induction left with
  | nil => exact h.2
  | cons token rest ih => exact ⟨by simpa [closesEmpty_erase hop hvalue] using h.1, ih h.2⟩

/-- Removing the operators leaves none that the loop would remove. -/
theorem removeErroneousAndOrOps_spec (tokens : List Token) :
    Reduces tokens (removeErroneousAndOrOps tokens) ∧
      (NoEmptyParens tokens → NoEmptyParens (removeErroneousAndOrOps tokens)) ∧
        toRemove none (removeErroneousAndOrOps tokens) = none := by
  induction tokens using removeErroneousAndOrOps.induct with
  | case1 tokens h =>
    rw [removeErroneousAndOrOps, h]
    exact ⟨⟨fun _ ↦ id, rfl, id⟩, id, h⟩
  | case2 tokens i h ih =>
    rw [removeErroneousAndOrOps, h]
    obtain ⟨left, operator, right, rfl, rfl, hop, hvalue⟩ := exists_of_toRemove h
    simp only [eraseIdx_length_append] at ih ⊢
    exact ⟨(reduces_operator hop hvalue).trans ih.1, fun hempty ↦ ih.2.1 (hempty.erase hop hvalue),
      ih.2.2⟩

theorem closesEmpty_of_scan {i : ℕ} (h : ∀ j, scan i false rest ≠ .closed j) :
    closesEmpty rest = false := by
  induction rest generalizing i with
  | nil => rfl
  | cons token rest ih =>
    by_cases hopen : token.isParen openParen
    · have hclose : token.isParen closeParen = false := by
        by_contra hclose
        simp [not_isParen_of_isParen (Bool.of_not_eq_false hclose)] at hopen
      simp [closesEmpty, hopen, hclose]
    by_cases hop : token.isOp
    · by_cases hclose : token.isParen closeParen
      · exact absurd (by simp [scan, hopen, hop, hclose]) (h i)
      · simp only [closesEmpty, hclose, Bool.false_or,
          ih (i := i + 1) (by simpa [scan, hopen, hop, hclose] using h), Bool.and_false]
    · simp [closesEmpty, Token.isParen, hop]

theorem noEmptyParens_of_scan_nested {i j : ℕ} {alreadySeen : Bool}
    (h : scan i alreadySeen rest = .nested j) (hrest : NoEmptyParens (rest.drop (j - i))) :
    NoEmptyParens rest := by
  induction rest generalizing i alreadySeen with
  | nil => trivial
  | cons token rest ih =>
    simp only [scan] at h
    split_ifs at h with hopen hop
    · simp_all
    all_goals
      have hle := (le_of_scan_nested h).1
      rw [show j - i = j - (i + 1) + 1 by omega, drop_succ_cons] at hrest
      exact ⟨by simp [hopen], ih h hrest⟩

theorem noEmptyParens_of_parensToDelete {k : ℕ}
    (h : parensToDelete k tokens = none) : NoEmptyParens tokens := by
  induction k, tokens using parensToDelete.induct with
  | case1 k => trivial
  | case2 k token rest hopen ih =>
    exact ⟨by simp_all, ih (by simpa [parensToDelete, hopen] using h)⟩
  | case3 k token rest hopen next hscan ih =>
    exact ⟨fun _ ↦ closesEmpty_of_scan (i := k + 1) (by simp [hscan]),
      noEmptyParens_of_scan_nested hscan (ih (by simpa [parensToDelete, hopen, hscan] using h))⟩
  | case4 k token rest hopen hscan ih =>
    exact ⟨fun _ ↦ closesEmpty_of_scan (i := k + 1) (by simp [hscan]),
      ih (by simpa [parensToDelete, hopen, hscan] using h)⟩
  | case5 k token rest hopen next hscan => simp [parensToDelete, hopen, hscan] at h

theorem removeParens_spec (tokens : List Token) :
    Reduces tokens (removeParens tokens) ∧ NoEmptyParens (removeParens tokens) := by
  induction tokens using removeParens.induct with
  | case1 tokens h =>
    rw [removeParens, h]
    exact ⟨⟨fun _ ↦ id, rfl, id⟩, noEmptyParens_of_parensToDelete h⟩
  | case2 tokens i j h ih =>
    rw [removeParens, h]
    obtain ⟨left, opened, inside, closed, right, rfl, rfl, rfl, hopened, hinside, hclosed⟩ :=
      exists_of_parensToDelete h
    simp only [Nat.zero_add, eraseIdx_pair] at ih ⊢
    exact ⟨(reduces_parens hopened hinside hclosed).trans ih.1, ih.2⟩

/-! ### Reading what is left -/

@[simp] theorem isOp_op (value : Str) : (Token.op value).isOp := rfl

@[simp] theorem value_op (value : Str) : (Token.op value).value = value := rfl

@[simp] theorem isParen_op (value : Str) (character : CodeUnit) :
    (Token.op value).isParen character = decide (value = [character]) := by
  rw [Token.isParen, isOp_op, Bool.true_and, Token.op]

theorem plain_op {value : Str} (h : isBooleanOp value) : (Token.op value).Plain :=
  plain_of_isBooleanOp h

theorem Grammatical.valid (h : Grammatical tokens) : ∀ token ∈ tokens, token.Valid := by
  induction h with
  | term h => simpa using .term h
  | parens _ ih => simpa [Token.Valid.opened] using fun token h ↦ h.elim (ih token) (· ▸ .closed)
  | juxtaposed _ _ ih ih' =>
    exact fun token h ↦ (mem_append.mp h).elim (ih token) (ih' token)
  | operator h _ _ ih ih' =>
    intro token htoken
    rcases mem_append.mp htoken with hleft | hright
    · exact ih token hleft
    · exact (mem_cons.mp hright).elim (· ▸ .operator h) (ih' token)

theorem Grammatical.foldlM_depthStep (h : Grammatical tokens) (depth : ℕ) :
    tokens.foldlM depthStep depth = some depth := by
  induction h generalizing depth with
  | term h => simp [(plain_of_isOp_eq_false h).depthStep]
  | parens _ ih =>
    simp [foldlM_append, depthStep, ih, openParen, closeParen]
  | juxtaposed _ _ ih ih' => simp [foldlM_append, ih, ih']
  | operator h _ _ ih ih' =>
    simp [foldlM_append, ih, ih', (plain_op h).depthStep]

/-- The tokens read so far between two parentheses: none, a query, or one with an operator that
awaits another. -/
inductive Partial : Bool → List Token → Prop
  | start : Partial true []
  | query {tokens : List Token} : Grammatical tokens → Partial false tokens
  | operator {tokens : List Token} {value : Str} :
      isBooleanOp value → Grammatical tokens → Partial true (tokens ++ [.op value])

theorem Partial.operand {awaits : Bool} {tokens operand : List Token} (h : Partial awaits tokens)
    (hoperand : Grammatical operand) : Grammatical (tokens ++ operand) := by
  cases h with
  | start => exact hoperand
  | query h => exact h.juxtaposed hoperand
  | operator hvalue h => simpa using h.operator hvalue hoperand

def opened (stack : List (List Token)) : List Token :=
  stack.reverse.flatMap (· ++ [.op [openParen]])

/-- A reader that refuses nothing has read a query. -/
theorem grammatical_of_reads {tokens current : List Token} {stack : List (List Token)}
    {awaits : Bool} (hvalid : ∀ token ∈ tokens, token.Valid)
    (hstack : ∀ frame ∈ stack, ∃ awaits, Partial awaits frame) (hcurrent : Partial awaits current)
    (h : Reads awaits stack.length tokens) : Grammatical (opened stack ++ current ++ tokens) := by
  induction tokens generalizing stack current awaits with
  | nil =>
    obtain ⟨rfl, hlength⟩ := h
    obtain rfl := eq_nil_of_length_eq_zero hlength
    cases hcurrent with
    | query h => simpa [opened]
  | cons token rest ih =>
    obtain ⟨htoken, hrest⟩ := forall_mem_cons.mp hvalid
    cases htoken with
    | term hop =>
      have := ih hrest hstack (.query (hcurrent.operand (.term hop)))
        (by simpa [Reads, Token.isParen, hop] using h)
      simpa using this
    | opened =>
      have : Grammatical (opened (current :: stack) ++ [] ++ rest) := ih hrest
        (forall_mem_cons.mpr ⟨⟨_, hcurrent⟩, hstack⟩) .start
        (by simpa [Reads] using h)
      simpa [opened] using this
    | closed =>
      obtain ⟨rfl, hne, hreads⟩ : awaits = false ∧ stack.length ≠ 0 ∧
          Reads false (stack.length - 1) rest := by
        simpa [Reads, openParen, closeParen] using h
      cases hcurrent with
      | query hcurrent =>
        cases stack with
        | nil => simp at hne
        | cons frame stack =>
          obtain ⟨⟨_, hframe⟩, hstack⟩ := forall_mem_cons.mp hstack
          have := ih hrest hstack (.query (hframe.operand hcurrent.parens)) hreads
          simpa [opened] using this
    | operator hvalue =>
      have hplain := plain_op hvalue
      obtain ⟨rfl, hreads⟩ : awaits = false ∧ Reads true stack.length rest := by
        rw [Reads, hplain.1, hplain.2] at h
        simpa using h
      cases hcurrent with
      | query hcurrent =>
        have := ih hrest hstack (.operator hvalue hcurrent) hreads
        simpa using this

theorem not_isErroneous_of_toRemove (hops : toRemove prev (token :: rest) = none) :
    ¬ isErroneous prev token rest.head? := by
  intro h
  rw [toRemove, if_pos h] at hops
  simp at hops

/-- At the start and inside of a parenthesis, the loop keeps no operator in front. -/
theorem operand_of_toRemove (hvalid : token.Valid)
    (hprev : ∀ before ∈ prev, before.isParen openParen)
    (hops : toRemove prev (token :: rest) = none) (hclose : token.isParen closeParen = false) :
    token.isParen openParen ∨ token.isOp = false := by
  cases hvalid with
  | term hop => exact .inr hop
  | opened => simp
  | closed => simp at hclose
  | operator hvalue =>
    refine absurd ?_ (not_isErroneous_of_toRemove hops)
    cases prev with
    | none => simpa [isErroneous] using hvalue
    | some prev =>
      have hopen := hprev prev rfl
      have hclosed : prev.isParen closeParen = false := by
        by_contra hclosed
        simp [not_isParen_of_isParen (Bool.of_not_eq_false hclosed)] at hopen
      simpa [isErroneous, isOp_of_isParen hopen, hclosed] using hvalue

/-- The operators that the loop keeps have an operand after them. -/
theorem exists_operand_of_toRemove {value : Str}
    (hvalue : isBooleanOp value) (hops : toRemove prev (.op value :: rest) = none) :
    ∃ token ∈ rest.head?, token.isParen openParen ∨ token.isOp = false := by
  have h := not_isErroneous_of_toRemove hops
  cases rest with
  | nil => exact absurd (by simpa [isErroneous] using hvalue) h
  | cons token rest =>
    refine ⟨token, rfl, ?_⟩
    by_contra hnone
    simp_all [isErroneous, Token.op, Token.isOp]

/-- Operators that the loop keeps, pairs of parentheses and none without a term: this is read. -/
theorem reads_of_toRemove {awaits : Bool} {depth : ℕ}
    (hvalid : ∀ token ∈ tokens, token.Valid) (hdepth : tokens.foldlM depthStep depth = some 0)
    (hops : toRemove prev tokens = none) (hempty : NoEmptyParens tokens)
    (hawaits : awaits → ∃ token ∈ tokens.head?, token.isParen openParen ∨ token.isOp = false) :
    Reads awaits depth tokens := by
  induction tokens generalizing prev awaits depth with
  | nil => exact ⟨by simpa using hawaits, by simpa using hdepth⟩
  | cons token rest ih =>
    obtain ⟨htoken, hrest⟩ := forall_mem_cons.mp hvalid
    have hnext : toRemove (some token) rest = none := by
      rw [toRemove] at hops
      split_ifs at hops
      simpa using hops
    cases htoken with
    | term hop =>
      have hplain := plain_of_isOp_eq_false hop
      have : Reads false depth rest :=
        ih hrest (by simpa [hplain.depthStep] using hdepth) hnext hempty.2 (by simp)
      simpa [Reads, hplain.1, hop] using this
    | opened =>
      have hdepth : rest.foldlM depthStep (depth + 1) = some 0 := by
        simpa [depthStep] using hdepth
      refine (if_pos (by simp)).mpr (ih hrest hdepth hnext hempty.2 fun _ ↦ ?_)
      cases rest with
      | nil => simp at hdepth
      | cons first rest =>
        have hclose := hempty.1 (by simp)
        simp only [closesEmpty, Bool.or_eq_false_iff] at hclose
        exact ⟨first, rfl, operand_of_toRemove (hrest first (by simp)) (by simp) hnext hclose.1⟩
    | closed =>
      cases depth with
      | zero => simp [depthStep, openParen, closeParen] at hdepth
      | succ depth =>
        have : Reads false depth rest := ih hrest
          (by simpa [depthStep, openParen, closeParen] using hdepth) hnext hempty.2 (by simp)
        simpa [Reads, openParen, closeParen, this] using hawaits
    | operator hvalue =>
      have hplain := plain_op hvalue
      have : Reads true depth rest := ih hrest (by simpa [hplain.depthStep] using hdepth) hnext
        hempty.2 fun _ ↦ exists_operand_of_toRemove hvalue hops
      rw [Reads, hplain.1, hplain.2]
      simpa [hplain.1, this] using hawaits

/-- A key has no parentheses. -/
theorem Grammatical.balanced_filter (h : Grammatical tokens) (key : Str) :
    Balanced (tokens.filter fun token ↦ token.key ≠ some key) := by
  suffices hfold : ∀ {tokens : List Token} (depth : ℕ), (∀ token ∈ tokens, token.Valid) →
      (tokens.filter fun token ↦ token.key ≠ some key).foldlM depthStep depth =
        tokens.foldlM depthStep depth from (hfold 0 h.valid).trans (h.foldlM_depthStep 0)
  intro tokens depth hvalid
  induction tokens generalizing depth with
  | nil => rfl
  | cons token rest ih =>
    obtain ⟨htoken, hrest⟩ := forall_mem_cons.mp hvalid
    by_cases hkey : token.key = some key
    · cases htoken with
      | term hop => simpa [hkey, (plain_of_isOp_eq_false hop).depthStep] using ih depth hrest
      | _ => simp [Token.op] at hkey
    · simp only [filter_cons, ne_eq, hkey, not_false_eq_true, decide_true, if_true, foldlM_cons]
      exact congrArg _ (funext fun depth ↦ ih depth hrest)

/-- **Removing a filter keeps a search well formed.** What is left of a grammatical query is empty
or grammatical, and its filters and free text are the others, in their order. -/
theorem removeFilter_grammatical (key : Str) {tokens : List Token} (h : Grammatical tokens) :
    (removeFilter key tokens = [] ∨ Grammatical (removeFilter key tokens)) ∧
      terms (removeFilter key tokens) = (terms tokens).filter fun token ↦ token.key ≠ some key := by
  obtain ⟨hfirst, -⟩ := removeErroneousAndOrOps_spec
    (tokens.filter fun token ↦ token.key ≠ some key)
  obtain ⟨hparens, hempty⟩ := removeParens_spec (removeErroneousAndOrOps
    (tokens.filter fun token ↦ token.key ≠ some key))
  obtain ⟨hlast, hnoEmpty, hops⟩ := removeErroneousAndOrOps_spec (removeParens
    (removeErroneousAndOrOps (tokens.filter fun token ↦ token.key ≠ some key)))
  have hreduces := (hfirst.trans hparens).trans hlast
  change Reduces _ (removeFilter key tokens) at hreduces
  change toRemove none (removeFilter key tokens) = none at hops
  refine ⟨?_, hreduces.terms_eq.trans (by simp only [terms, filter_filter, Bool.and_comm])⟩
  have hvalid : ∀ token ∈ removeFilter key tokens, token.Valid := fun token htoken ↦
    h.valid token (mem_of_mem_filter (hreduces.subset htoken))
  have hbalanced := hreduces.balanced (h.balanced_filter key)
  have hempty : NoEmptyParens (removeFilter key tokens) := hnoEmpty hempty
  revert hvalid hbalanced hops hempty
  cases removeFilter key tokens with
  | nil => simp
  | cons token rest =>
    intro hops hvalid hbalanced hempty
    refine .inr (grammatical_of_reads hvalid (forall_mem_nil _) .start
      (reads_of_toRemove hvalid hbalanced hops hempty fun _ ↦ ⟨token, rfl, ?_⟩))
    refine operand_of_toRemove (hvalid token (by simp)) (by simp) hops ?_
    by_contra hclose
    have hclose := Bool.of_not_eq_false hclose
    simp [Balanced, depthStep, hclose, not_isParen_of_isParen hclose] at hbalanced

/-- A filter or a word: what is left of `a:b OR c` without the filter. -/
def filterOrText : List Token := [⟨.filter, some [97], [98]⟩, .op [79, 82], ⟨.freeText, none, [99]⟩]

theorem removeFilter_grammatical_filterOrText :
    (removeFilter [97] filterOrText = [] ∨ Grammatical (removeFilter [97] filterOrText)) ∧
      terms (removeFilter [97] filterOrText) = [⟨.freeText, none, [99]⟩] :=
  removeFilter_grammatical [97] (@Grammatical.operator [_] _ _ (by decide) (.term rfl) (.term rfl))

end Sentry.TokenizeSearch
