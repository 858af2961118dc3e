import Sentry.Discover.Arithmetic
import Mathlib.Tactic.NormNum

/-!
# What equations mean

The tokens that an equation spells are read one by one (`Spells`), in one way only
(`Spells.unique`). The visit of each rule gives a tree with the value and the operators of the
tokens that the rule has read (`Stands`). So an equation that is accepted has one value, which is
that of its tree (`parseArithmetic_meaning`).
-/

namespace Sentry.Discover.Arithmetic

open List
open Library Library.Peg
open Library.ArithmeticExpressions

/-! ### Tokens of an equation -/

/-- An operand as it stands in an equation: a signed literal, or a field or function. -/
inductive Leaf
  | number (text : Text)
  | name (text : Text)

def leaf : Peg Char Leaf :=
  (Leaf.number <$> numericValue) <|> ((fun value ↦ Leaf.name value.2) <$> functionValue) <|>
    (Leaf.name <$> fieldValue)

def operatorChar : Char → Option Operator
  | '+' => some .plus
  | '-' => some .minus
  | '*' => some .multiply
  | '/' => some .divide
  | '÷' => some .divide
  | _ => none

/-- An equation spells its tokens, with spaces before and after each. -/
inductive Spells : Text → List (Token Leaf) → Prop
  | nil : Spells [] []
  | space {s : Text} {tokens : List (Token Leaf)} : Spells s tokens → Spells (' ' :: s) tokens
  | operand {s rest : Text} {a : Leaf} {tokens : List (Token Leaf)} : leaf s = some (a, rest) →
      Spells rest tokens → Spells s (.operand a :: tokens)
  | operator {c : Char} {s : Text} {operator : Operator} {tokens : List (Token Leaf)} :
      operatorChar c = some operator → Spells s tokens →
      Spells (c :: s) (.operator operator :: tokens)
  | openParen {s : Text} {tokens : List (Token Leaf)} : Spells s tokens →
      Spells ('(' :: s) (.openParen :: tokens)
  | closedParen {s : Text} {tokens : List (Token Leaf)} : Spells s tokens →
      Spells (')' :: s) (.closedParen :: tokens)

variable {F : Type} {V : Type*} [Add V] [Sub V] [Mul V] [Div V]

/-- What a literal and a name stand for. -/
def Leaf.value (float : Text → F) (number : F → V) (assignment : Text → V) : Leaf → V
  | .number text => number (float text)
  | .name text => assignment text

/-- A value of an equation under the usual rules. -/
def IsValue (value : Leaf → V) (equation : Text) (v : V) : Prop :=
  ∃ tokens, Spells equation tokens ∧ Denotes value .sum tokens v

/-! ### Trees -/

namespace Operand

def eval (number : F → V) (assignment : Text → V) : Operand F → V
  | operation operator lhs rhs =>
    operator.apply (lhs.eval number assignment) (rhs.eval number assignment)
  | .number value => number value
  | name text => assignment text

/-- The operators from left to right. -/
def operators : Operand F → List Operator
  | operation operator lhs rhs => lhs.operators ++ operator :: rhs.operators
  | number _ => []
  | name _ => []

/-- No operation divides by a literal that is zero. -/
def DividesByNoZero (isZero : F → Bool) : Operand F → Prop
  | operation operator lhs rhs => lhs.DividesByNoZero isZero ∧ rhs.DividesByNoZero isZero ∧
      ¬ (operator = .divide ∧ rhs.isZero isZero)
  | number _ => True
  | name _ => True

end Operand

/-! ### One spelling -/

theorem leaf_space (s : Text) : leaf (' ' :: s) = none := rfl

theorem leaf_openParen (s : Text) : leaf ('(' :: s) = none := rfl

theorem Spells.unique {s : Text} {tokens tokens' : List (Token Leaf)} {value : Leaf → V}
    {state last last' : State V} (h : Spells s tokens) (h' : Spells s tokens')
    (hrun : run value state tokens = some last) (hrun' : run value state tokens' = some last') :
    tokens = tokens' := by
  induction h generalizing state tokens' with
  | nil =>
    cases h' with
    | nil => rfl
    | operand hleaf _ => nomatch hleaf
  | space _ ih =>
    cases h' with
    | space h' => exact ih h' hrun hrun'
    | operand hleaf _ => rw [leaf_space] at hleaf; nomatch hleaf
    | operator hc _ => nomatch hc
  | operand hleaf _ ih =>
    have hbegins := isExpecting_of_run hrun
    cases h' with
    | nil => nomatch hleaf
    | space _ => rw [leaf_space] at hleaf; nomatch hleaf
    | openParen _ => rw [leaf_openParen] at hleaf; nomatch hleaf
    | operator | closedParen => exact nomatch hbegins.symm.trans (isExpecting_of_run hrun')
    | operand hleaf' h' =>
      obtain ⟨rfl, rfl⟩ := Prod.mk.inj (Option.some.inj (hleaf.symm.trans hleaf'))
      obtain ⟨next, hnext, hnext'⟩ := exists_run_of_cons hrun hrun'
      rw [ih h' hnext hnext']
  | operator hc _ ih =>
    have hbegins := isExpecting_of_run hrun
    cases h' with
    | space | openParen | closedParen => nomatch hc
    | operand _ _ => exact nomatch hbegins.symm.trans (isExpecting_of_run hrun')
    | operator hc' h' =>
      obtain rfl := Option.some.inj (hc.symm.trans hc')
      obtain ⟨next, hnext, hnext'⟩ := exists_run_of_cons hrun hrun'
      rw [ih h' hnext hnext']
  | openParen _ ih =>
    cases h' with
    | operand hleaf _ => rw [leaf_openParen] at hleaf; nomatch hleaf
    | operator hc _ => nomatch hc
    | openParen h' =>
      obtain ⟨next, hnext, hnext'⟩ := exists_run_of_cons hrun hrun'
      rw [ih h' hnext hnext']
  | closedParen _ ih =>
    have hbegins := isExpecting_of_run hrun
    cases h' with
    | operand _ _ => exact nomatch hbegins.symm.trans (isExpecting_of_run hrun')
    | operator hc _ => nomatch hc
    | closedParen h' =>
      obtain ⟨next, hnext, hnext'⟩ := exists_run_of_cons hrun hrun'
      rw [ih h' hnext hnext']

theorem Spells.unique_of_denotes {s : Text} {tokens tokens' : List (Token Leaf)}
    {value : Leaf → V} {v v' : V} (h : Spells s tokens) (h' : Spells s tokens')
    (hv : Denotes value .sum tokens v) (hv' : Denotes value .sum tokens' v') :
    tokens = tokens' := by
  obtain ⟨_, _, hrun, -⟩ := run_of_denotes hv []
  obtain ⟨_, _, hrun', -⟩ := run_of_denotes hv' []
  exact h.unique h' hrun hrun'

variable {config : Config F} {number : F → V} {assignment : Text → V} {level : Level}
  {tokens left right : List (Token Leaf)} {s t u : Text}

/-- What an operand has from the tokens it was read from. -/
structure Stands (config : Config F) (number : F → V) (assignment : Text → V) (level : Level)
    (tokens : List (Token Leaf)) (operand : Operand F) : Prop where
  denotes : Denotes (Leaf.value config.float number assignment) level tokens
    (operand.eval number assignment)
  operators_eq : operand.operators = operators tokens
  dividesByNoZero : operand.DividesByNoZero config.isZero

/-- The same of an operation whose left operand is before these tokens. -/
structure StandsAfter (config : Config F) (number : F → V) (assignment : Text → V) (level : Level)
    (part : Operator × List (Token Leaf)) (next : Remaining F) : Prop where
  operator_eq : next.operator = part.1
  level_eq : part.1.level = level
  rhs : Stands config number assignment level.tighter part.2 next.rhs
  ne_zero : ¬ (part.1 = .divide ∧ next.rhs.isZero config.isZero)

def partTokens (parts : List (Operator × List (Token Leaf))) : List (Token Leaf) :=
  parts.flatMap fun part ↦ .operator part.1 :: part.2

theorem Stands.tighter {operand : Operand F}
    (h : Stands config number assignment level.tighter tokens operand) :
    Stands config number assignment level tokens operand :=
  ⟨h.denotes.tighter, h.operators_eq, h.dividesByNoZero⟩

theorem Stands.parens {operand : Operand F}
    (h : Stands config number assignment .sum tokens operand) :
    Stands config number assignment .atom (.openParen :: tokens ++ [.closedParen]) operand where
  denotes := h.denotes.parens
  operators_eq := by
    rw [operators_append, h.operators_eq]
    simp [operators]
  dividesByNoZero := h.dividesByNoZero

theorem Stands.operation {part : Operator × List (Token Leaf)} {lhs : Operand F}
    {next : Remaining F} (h : Stands config number assignment level tokens lhs)
    (hnext : StandsAfter config number assignment level part next) :
    Stands config number assignment level (tokens ++ .operator part.1 :: part.2)
      (.operation next.operator lhs next.rhs) where
  denotes := by
    obtain ⟨hoperator, rfl, hrhs, -⟩ := hnext
    rw [Operand.eval, hoperator]
    exact h.denotes.operation hrhs.denotes
  operators_eq := by
    rw [operators_append, operators, Operand.operators, h.operators_eq, hnext.rhs.operators_eq,
      hnext.operator_eq]
  dividesByNoZero :=
    ⟨h.dividesByNoZero, hnext.rhs.dividesByNoZero, hnext.operator_eq ▸ hnext.ne_zero⟩

variable {parts : List (Operator × List (Token Leaf))}

theorem Stands.flatten {first : Operand F}
    {remaining : List (Remaining F)} (h : Stands config number assignment level tokens first)
    (hremaining : List.Forall₂ (StandsAfter config number assignment level) parts remaining) :
    Stands config number assignment level (tokens ++ partTokens parts)
      (flatten first remaining) := by
  induction hremaining generalizing tokens first with
  | nil =>
    show Stands config number assignment level (tokens ++ []) first
    rw [append_nil]
    exact h
  | @cons part next parts remaining hnext _ ih =>
    have hparts : tokens ++ partTokens (part :: parts) =
        tokens ++ .operator part.1 :: part.2 ++ partTokens parts := by
      simp [partTokens]
    rw [hparts]
    exact ih (h.operation hnext)

/-! ### Visits -/

section Runs

variable {α β : Type} {state next : VisitorState}

theorem bind_eq_ok {visit : Visit α} {f : α → Visit β} {result : β} :
    (visit >>= f) state = .ok (result, next) ↔
      ∃ a middle, visit state = .ok (a, middle) ∧ f a middle = .ok (result, next) := by
  show (visit state).bind (fun result ↦ f result.1 result.2) = _ ↔ _
  cases visit state with
  | error error => simp [Except.bind]
  | ok value =>
    exact ⟨fun h ↦ ⟨_, _, rfl, h⟩, fun ⟨_, _, hvalue, h⟩ ↦ hvalue ▸ h⟩

theorem pure_eq_ok {a b : α} (h : (pure a : Visit α) state = .ok (b, next)) :
    b = a ∧ next = state := by
  have hpair := Except.ok.inj h
  exact ⟨(congrArg Prod.fst hpair).symm, (congrArg Prod.snd hpair).symm⟩

def Counts (config : Config F) (n : ℕ) (state next : VisitorState) : Prop :=
  next.operators = state.operators + n ∧ (n = 0 ∨ next.operators ≤ config.limit)

theorem Counts.trans {n m : ℕ} {last : VisitorState} (h : Counts config n state next)
    (h' : Counts config m next last) : Counts config (n + m) state last := by
  obtain ⟨hcount, hlimit⟩ := h
  obtain ⟨hcount', hlimit'⟩ := h'
  refine ⟨by omega, ?_⟩
  rcases hlimit' with rfl | hlimit'
  · rcases hlimit with rfl | hlimit
    · left; rfl
    · right; omega
  · right; exact hlimit'

theorem visitedOperator_apply (state : VisitorState) : visitedOperator config state =
    if config.limit < (state.operators + 1 : ℕ) then
      .error (.maxOperator "Exceeded maximum number of operations")
    else .ok ((), { state with operators := state.operators + 1 }) := by
  show (if _ then _ else _ : Visit Unit) _ = _
  split <;> rfl

theorem visitedOperator_eq_ok {value : Unit}
    (h : visitedOperator config state = .ok (value, next)) : Counts config 1 state next := by
  rw [visitedOperator_apply] at h
  split at h
  next => nomatch h
  next hlimit =>
    obtain rfl := congrArg Prod.snd (Except.ok.inj h)
    exact ⟨rfl, .inr (not_lt.mp hlimit)⟩

end Runs

def Visits (config : Config F) (number : F → V) (assignment : Text → V) (level : Level)
    (tokens : List (Token Leaf)) (visit : OperandVisit F) : Prop :=
  ∀ ⦃state operand next⦄, visit state = .ok (operand, next) →
    Stands config number assignment level tokens operand ∧
      Counts config (operators tokens).length state next

def VisitsAfter (config : Config F) (number : F → V) (assignment : Text → V) (level : Level)
    (part : Operator × List (Token Leaf)) (visit : Visit (Remaining F)) : Prop :=
  ∀ ⦃state remaining next⦄, visit state = .ok (remaining, next) →
    StandsAfter config number assignment level part remaining ∧
      Counts config ((operators part.2).length + 1) state next

theorem visits_numericValue (text : Text) :
    Visits config number assignment .atom [.operand (.number text)]
      (visitNumericValue config text) := by
  intro state operand next h
  obtain ⟨rfl, rfl⟩ := pure_eq_ok h
  exact ⟨⟨.operand (Leaf.number text), rfl, trivial⟩, rfl, .inl rfl⟩

theorem visits_functionValue (functionName field : Text) :
    Visits config number assignment .atom [.operand (.name field)]
      (visitFunctionValue functionName field) := by
  intro state operand next h
  unfold visitFunctionValue at h
  split at h
  next => nomatch h
  next =>
    have hpair := Except.ok.inj h
    obtain rfl := congrArg Prod.fst hpair
    obtain rfl := congrArg Prod.snd hpair
    exact ⟨⟨.operand (Leaf.name field), rfl, trivial⟩, rfl, .inl rfl⟩

theorem visits_fieldValue (field : Text) :
    Visits config number assignment .atom [.operand (.name field)]
      (visitFieldValue config field) := by
  intro state operand next h
  unfold visitFieldValue at h
  split at h
  next => nomatch h
  next =>
    have hpair := Except.ok.inj h
    obtain rfl := congrArg Prod.fst hpair
    obtain rfl := congrArg Prod.snd hpair
    exact ⟨⟨.operand (Leaf.name field), rfl, trivial⟩, rfl, .inl rfl⟩

variable {visit : OperandVisit F}

theorem Visits.primary (h : Visits config number assignment level tokens visit) :
    Visits config number assignment level tokens (visitPrimary visit) := by
  intro state operand next hvisit
  obtain ⟨value, middle, hvalue, hrest⟩ := bind_eq_ok.mp hvisit
  have hpair := Except.ok.inj hrest
  obtain rfl := congrArg Prod.fst hpair
  obtain rfl := congrArg Prod.snd hpair
  obtain ⟨hstands, hcounts⟩ := h hvalue
  exact ⟨hstands, hcounts⟩

theorem Visits.remaining {operator : Operator} (hlevel : operator.level = level)
    (h : Visits config number assignment level.tighter tokens visit) :
    VisitsAfter config number assignment level (operator, tokens)
      (visitRemaining config operator visit) := by
  intro state remaining next hvisit
  obtain ⟨rhs, middle, hrhs, hvisit⟩ := bind_eq_ok.mp hvisit
  obtain ⟨_, last, hcount, hvisit⟩ := bind_eq_ok.mp hvisit
  split at hvisit
  next => nomatch hvisit
  next hzero =>
    obtain ⟨rfl, rfl⟩ := pure_eq_ok hvisit
    obtain ⟨hstands, hcounts⟩ := h hrhs
    exact ⟨⟨rfl, hlevel, hstands, hzero⟩, hcounts.trans (visitedOperator_eq_ok hcount)⟩

theorem forall₂_of_visitAll {visits : List (Visit (Remaining F))} {state next : VisitorState}
    {remaining : List (Remaining F)}
    (h : List.Forall₂ (VisitsAfter config number assignment level) parts visits)
    (hvisit : visitAll visits state = .ok (remaining, next)) :
    List.Forall₂ (StandsAfter config number assignment level) parts remaining ∧
      Counts config (operators (partTokens parts)).length state next := by
  induction h generalizing state remaining with
  | nil =>
    obtain ⟨rfl, rfl⟩ := pure_eq_ok hvisit
    exact ⟨.nil, rfl, .inl rfl⟩
  | @cons part visit parts visits hpart _ ih =>
    obtain ⟨first, middle, hfirst, hvisit⟩ := bind_eq_ok.mp hvisit
    obtain ⟨others, last, hothers, hvisit⟩ := bind_eq_ok.mp hvisit
    obtain ⟨rfl, rfl⟩ := pure_eq_ok hvisit
    obtain ⟨hstands, hcounts⟩ := hpart hfirst
    obtain ⟨hothers, hcounts'⟩ := ih hothers
    refine ⟨.cons hstands hothers, ?_⟩
    have hlength : (operators (partTokens (part :: parts))).length =
        (operators part.2).length + 1 + (operators (partTokens parts)).length := by
      show (operators (.operator part.1 :: part.2 ++ partTokens parts)).length = _
      rw [operators_append, length_append, operators, length_cons]
    rw [hlength]
    exact hcounts.trans hcounts'

theorem Visits.term {visits : List (Visit (Remaining F))}
    (h : Visits config number assignment level tokens visit)
    (hvisits : List.Forall₂ (VisitsAfter config number assignment level) parts visits) :
    Visits config number assignment level (tokens ++ partTokens parts)
      (visitTerm visit visits) := by
  intro state operand next hvisit
  obtain ⟨first, middle, hfirst, hvisit⟩ := bind_eq_ok.mp hvisit
  obtain ⟨remaining, last, hremaining, hvisit⟩ := bind_eq_ok.mp hvisit
  obtain ⟨rfl, rfl⟩ := pure_eq_ok hvisit
  obtain ⟨hstands, hcounts⟩ := h hfirst
  obtain ⟨hothers, hcounts'⟩ := forall₂_of_visitAll hvisits hremaining
  rw [operators_append, length_append]
  exact ⟨hstands.flatten hothers, hcounts.trans hcounts'⟩

/-! ### Rules -/

def SpellsTo (s : Text) (tokens : List (Token Leaf)) (rest : Text) : Prop :=
  ∀ ⦃more⦄, Spells rest more → Spells s (tokens ++ more)

theorem SpellsTo.append (h : SpellsTo s left t) (h' : SpellsTo t right u) :
    SpellsTo s (left ++ right) u := by
  intro more hmore
  rw [append_assoc]
  exact h (h' hmore)

theorem spellsTo_dropWhile (s : Text) : SpellsTo s [] (s.dropWhile (· = ' ')) := by
  intro more hmore
  induction s with
  | nil => exact hmore
  | cons c s ih =>
    rw [dropWhile_cons] at hmore
    split at hmore
    next hspace =>
      obtain rfl := of_decide_eq_true hspace
      exact (ih hmore).space
    next => exact hmore

theorem spellsTo_spaces {value : Text} (h : spaces s = some (value, t)) : SpellsTo s [] t := by
  obtain ⟨-, rfl⟩ := Prod.mk.inj (Option.some.inj h)
  exact spellsTo_dropWhile s

def Spelled {α : Type} (kind : List (Token Leaf) → α → Prop) (e : Peg Char α) : Prop :=
  ∀ ⦃s value rest⦄, e s = some (value, rest) → ∃ tokens, SpellsTo s tokens rest ∧ kind tokens value

section Spelled

variable {α β : Type} {kind : List (Token Leaf) → α → Prop} {e e' : Peg Char α}

theorem Spelled.orElse (he : Spelled kind e) (he' : Spelled kind e') : Spelled kind (e <|> e') := by
  intro s value rest h
  rw [orElse_apply, Option.or_eq_some_iff] at h
  rcases h with h | ⟨-, h⟩
  · exact he h
  · exact he' h

theorem Spelled.map {kind' : List (Token Leaf) → β → Prop} {f : α → β} (he : Spelled kind e)
    (hf : ∀ tokens value, kind tokens value → kind' tokens (f value)) :
    Spelled kind' (f <$> e) := by
  intro s result rest h
  rw [map_apply, Option.map_eq_some_iff] at h
  obtain ⟨⟨value, left⟩, hvalue, hresult⟩ := h
  obtain ⟨rfl, rfl⟩ := Prod.mk.inj hresult
  obtain ⟨tokens, hspells, hkind⟩ := he hvalue
  exact ⟨tokens, hspells, hf tokens value hkind⟩

theorem Spelled.spaced (he : Spelled kind e) : Spelled kind (spaced e) := by
  intro s result rest h
  obtain ⟨_, t, hbefore, h⟩ := bind_eq_some.mp h
  obtain ⟨value, u, hvalue, h⟩ := bind_eq_some.mp h
  obtain ⟨_, _, hafter, h⟩ := bind_eq_some.mp h
  obtain ⟨rfl, rfl⟩ := Prod.mk.inj (Option.some.inj h)
  obtain ⟨tokens, hspells, hkind⟩ := he hvalue
  refine ⟨tokens, ?_, hkind⟩
  have hall := (spellsTo_spaces hbefore).append (hspells.append (spellsTo_spaces hafter))
  rwa [nil_append, append_nil] at hall

theorem Spelled.seq {kind' : List (Token Leaf) → β → Prop} {γ : Type} {e' : Peg Char β}
    {kind'' : List (Token Leaf) → γ → Prop} {f : α → β → γ} (he : Spelled kind e)
    (he' : Spelled kind' e')
    (hf : ∀ left value right value', kind left value → kind' right value' →
      kind'' (left ++ right) (f value value')) :
    Spelled kind'' (e >>= fun value ↦ e' >>= fun value' ↦ pure (f value value')) := by
  intro s result rest h
  obtain ⟨value, t, hvalue, h⟩ := bind_eq_some.mp h
  obtain ⟨value', u, hvalue', h⟩ := bind_eq_some.mp h
  obtain ⟨rfl, rfl⟩ := Prod.mk.inj (Option.some.inj h)
  obtain ⟨left, hleft, hkind⟩ := he hvalue
  obtain ⟨right, hright, hkind'⟩ := he' hvalue'
  exact ⟨left ++ right, hleft.append hright, hf left value right value' hkind hkind'⟩

end Spelled

theorem char_eq_some {c : Char} {value : Unit} (h : char c s = some (value, t)) : s = c :: t := by
  obtain ⟨_, u, hliteral, h⟩ := bind_eq_some.mp h
  obtain ⟨-, rfl⟩ := Prod.mk.inj (Option.some.inj h)
  exact (literal_eq_some hliteral).2

def IsOperator (level : Level) (tokens : List (Token Leaf)) (operator : Operator) : Prop :=
  tokens = [.operator operator] ∧ operator.level = level

theorem spelled_operatorOf {c : Char} {operator : Operator}
    (hc : operatorChar c = some operator) (hlevel : operator.level = level) :
    Spelled (IsOperator level) (operatorOf c operator) := by
  intro s value rest h
  obtain ⟨_, t, hchar, h⟩ := bind_eq_some.mp h
  obtain ⟨rfl, rfl⟩ := Prod.mk.inj (Option.some.inj h)
  obtain rfl := char_eq_some hchar
  exact ⟨[.operator operator], fun _ hmore ↦ .operator hc hmore, rfl, hlevel⟩

theorem spelled_addSubOperator : Spelled (IsOperator .sum) addSubOperator := by
  apply Spelled.spaced
  apply Spelled.orElse
  all_goals exact spelled_operatorOf rfl rfl

theorem spelled_mulDivOperator : Spelled (IsOperator .product) mulDivOperator := by
  apply Spelled.spaced
  apply Spelled.orElse
  · exact spelled_operatorOf rfl rfl
  · exact (spelled_operatorOf rfl rfl).orElse (spelled_operatorOf rfl rfl)

theorem spelled_parens {term : Peg Char (OperandVisit F)}
    (hterm : Spelled (Visits config number assignment .sum) term) :
    Spelled (Visits config number assignment .atom) (parens term) := by
  intro s visit rest h
  obtain ⟨_, t, hopen, h⟩ := bind_eq_some.mp h
  obtain ⟨value, u, hvalue, h⟩ := bind_eq_some.mp h
  obtain ⟨_, _, hclosed, h⟩ := bind_eq_some.mp h
  obtain ⟨rfl, rfl⟩ := Prod.mk.inj (Option.some.inj h)
  obtain rfl := char_eq_some hopen
  obtain rfl := char_eq_some hclosed
  obtain ⟨tokens, hspells, hvisits⟩ := hterm hvalue
  refine ⟨.openParen :: tokens ++ [.closedParen], fun more hmore ↦ ?_, ?_⟩
  · rw [append_assoc]
    exact .openParen (hspells (.closedParen hmore))
  · intro state operand next hvisit
    obtain ⟨hstands, hcounts⟩ := hvisits hvisit
    refine ⟨hstands.parens, ?_⟩
    rwa [← hstands.parens.operators_eq, hstands.operators_eq]

theorem spelled_leaf :
    Spelled (Visits config number assignment .atom) ((visitNumericValue config <$> numericValue) <|>
      ((fun value ↦ visitFunctionValue value.1 value.2) <$> functionValue) <|>
      (visitFieldValue config <$> fieldValue)) := by
  intro s visit rest h
  rw [orElse_apply, orElse_apply, map_apply, map_apply, map_apply] at h
  have hleaf : leaf s = ((numericValue s).map fun result ↦ (.number result.1, result.2)).or
      (((functionValue s).map fun result ↦ (.name result.1.2, result.2)).or
        ((fieldValue s).map fun result ↦ (.name result.1, result.2))) := by
    rw [leaf, orElse_apply, orElse_apply, map_apply, map_apply, map_apply]
  cases hnumeric : numericValue s with
  | some result =>
    rw [hnumeric] at h hleaf
    obtain ⟨rfl, rfl⟩ := Prod.mk.inj (Option.some.inj h)
    exact ⟨_, fun _ hmore ↦ .operand hleaf hmore, visits_numericValue result.1⟩
  | none =>
    rw [hnumeric] at h hleaf
    cases hfunction : functionValue s with
    | some result =>
      rw [hfunction] at h hleaf
      obtain ⟨rfl, rfl⟩ := Prod.mk.inj (Option.some.inj h)
      exact ⟨_, fun _ hmore ↦ .operand hleaf hmore, visits_functionValue result.1.1 result.1.2⟩
    | none =>
      rw [hfunction] at h hleaf
      cases hfield : fieldValue s with
      | some result =>
        rw [hfield] at h hleaf
        obtain ⟨rfl, rfl⟩ := Prod.mk.inj (Option.some.inj h)
        exact ⟨_, fun _ hmore ↦ .operand hleaf hmore, visits_fieldValue result.1⟩
      | none =>
        rw [hfield] at h
        nomatch h

def VisitsPart (config : Config F) (number : F → V) (assignment : Text → V) (level : Level)
    (tokens : List (Token Leaf)) (visit : Visit (Remaining F)) : Prop :=
  ∃ part, tokens = .operator part.1 :: part.2 ∧
    VisitsAfter config number assignment level part visit

def VisitsParts (config : Config F) (number : F → V) (assignment : Text → V) (level : Level)
    (tokens : List (Token Leaf)) (visits : List (Visit (Remaining F))) : Prop :=
  ∃ parts, tokens = partTokens parts ∧
    List.Forall₂ (VisitsAfter config number assignment level) parts visits

section Term

variable {rule : Peg Char (OperandVisit F)} {e : Peg Char (Visit (Remaining F))}

theorem spelled_remaining {operator : Peg Char Operator}
    (hoperator : Spelled (IsOperator level) operator)
    (hrule : Spelled (Visits config number assignment level.tighter) rule) :
    Spelled (VisitsPart config number assignment level)
      (operator >>= fun operator ↦ rule >>= fun rhs ↦
        pure (visitRemaining config operator rhs)) := by
  refine hoperator.seq hrule ?_
  rintro _ operator tokens rhs ⟨rfl, hlevel⟩ hvisits
  exact ⟨(operator, tokens), rfl, hvisits.remaining hlevel⟩

theorem spelled_star (he : Spelled (VisitsPart config number assignment level) e) :
    Spelled (VisitsParts config number assignment level) (star e) := by
  intro s visits rest h
  obtain ⟨rfl, rfl⟩ := Prod.mk.inj (Option.some.inj h)
  refine Repetition.many_values (motive := fun s visits rest ↦ ∃ tokens,
    SpellsTo s tokens rest ∧ VisitsParts config number assignment level tokens visits) ?_ ?_ s
  · exact fun s ↦ ⟨[], fun _ hmore ↦ hmore, [], rfl, .nil⟩
  · rintro s visit t visits u hvisit ⟨_, hparts, parts, rfl, hvisits⟩
    obtain ⟨_, hspells, part, rfl, hpart⟩ := he hvisit
    exact ⟨_, hspells.append hparts, part :: parts, rfl, .cons hpart hvisits⟩

theorem spelled_plus (he : Spelled (VisitsPart config number assignment level) e) :
    Spelled (VisitsParts config number assignment level) (plus e) := by
  refine he.seq (spelled_star he) ?_
  rintro _ visit _ visits ⟨part, rfl, hpart⟩ ⟨parts, rfl, hparts⟩
  exact ⟨part :: parts, rfl, .cons hpart hparts⟩

theorem spelled_visitTerm {remaining : Peg Char (List (Visit (Remaining F)))}
    (hrule : Spelled (Visits config number assignment level.tighter) rule)
    (hremaining : Spelled (VisitsParts config number assignment level) remaining) :
    Spelled (Visits config number assignment level)
      (rule >>= fun first ↦ remaining >>= fun remaining ↦ pure (visitTerm first remaining)) := by
  refine hrule.seq hremaining ?_
  rintro tokens first _ remaining hfirst ⟨parts, rfl, hparts⟩
  have htighter : Visits config number assignment level tokens first := by
    intro state operand next h
    exact ⟨(hfirst h).1.tighter, (hfirst h).2⟩
  exact htighter.term hparts

variable {term : Peg Char (OperandVisit F)}
  (hterm : Spelled (Visits config number assignment .sum) term)

include hterm

theorem spelled_primary : Spelled (Visits config number assignment .atom) (primary config term) :=
  ((spelled_parens hterm).orElse spelled_leaf).spaced.map fun _ _ h ↦ h.primary

theorem spelled_maybeFactor :
    Spelled (Visits config number assignment .product) (maybeFactor config term) := by
  apply Spelled.spaced
  apply Spelled.orElse
  · exact spelled_visitTerm (spelled_primary hterm)
      (spelled_plus (spelled_remaining spelled_mulDivOperator (spelled_primary hterm)))
  · intro s visit rest h
    obtain ⟨tokens, hspells, hvisits⟩ := spelled_primary hterm h
    exact ⟨tokens, hspells, fun state operand next h ↦ ⟨(hvisits h).1.tighter, (hvisits h).2⟩⟩

end Term

variable (number assignment) in
theorem spelled_term (depth : ℕ) :
    Spelled (Visits config number assignment .sum) (term config depth) := by
  induction depth with
  | zero => exact fun _ _ _ h ↦ nomatch h
  | succ depth ih =>
    exact spelled_visitTerm (spelled_maybeFactor ih)
      (spelled_star (spelled_remaining spelled_addSubOperator (spelled_maybeFactor ih)))

/-! ### Equations -/

variable (number assignment) in
theorem readEquation_eq_some {equation : Text} (h : readEquation config equation = some visit) :
    ∃ tokens, Spells equation tokens ∧ Visits config number assignment .sum tokens visit := by
  unfold readEquation at h
  split at h
  next visit' hterm =>
    obtain rfl := Option.some.inj h
    obtain ⟨tokens, hspells, hvisits⟩ := spelled_term number assignment _ hterm
    have hequation := hspells .nil
    rw [append_nil] at hequation
    exact ⟨tokens, hequation, hvisits⟩
  next => nomatch h

theorem parseArithmetic_eq_ok {equation : Text} {result : Operand F} {fields functions : List Text}
    (h : parseArithmetic config equation = .ok (result, fields, functions)) :
    ∃ visit visitor, readEquation config equation = some visit ∧
      visit ⟨0, 0, [], []⟩ = .ok (result, visitor) := by
  unfold parseArithmetic at h
  split at h
  next => nomatch h
  next visit hvisit =>
    refine ⟨visit, ?_⟩
    cases hrun : visit ⟨0, 0, [], []⟩ with
    | error error =>
      rw [hrun] at h
      nomatch h
    | ok value =>
      obtain ⟨operand, visitor⟩ := value
      rw [hrun] at h
      cases hcheck : checkVisited visitor with
      | error error =>
        have herror := congrArg (fun checked ↦ checked.bind fun _ ↦
          .ok (operand, visitor.fields, visitor.functions)) hcheck
        exact nomatch h.symm.trans herror
      | ok =>
        have hok := congrArg (fun checked ↦ checked.bind fun _ ↦
          .ok (operand, visitor.fields, visitor.functions)) hcheck
        obtain rfl := congrArg Prod.fst (Except.ok.inj (h.symm.trans hok))
        exact ⟨visitor, hvisit, rfl⟩

variable (number assignment) in
theorem exists_stands {equation : Text} {result : Operand F} {fields functions : List Text}
    (h : parseArithmetic config equation = .ok (result, fields, functions)) :
    ∃ tokens, Spells equation tokens ∧ Stands config number assignment .sum tokens result ∧
      ((operators tokens).length : ℤ) ≤ max config.limit 0 := by
  obtain ⟨visit, visitor, hread, hvisit⟩ := parseArithmetic_eq_ok h
  obtain ⟨tokens, hspells, hvisits⟩ := readEquation_eq_some number assignment hread
  obtain ⟨hstands, hcount, hlimit⟩ := hvisits hvisit
  refine ⟨tokens, hspells, hstands, ?_⟩
  rw [Nat.zero_add] at hcount
  rcases hlimit with hzero | hlimit
  · rw [hzero]
    exact le_max_right _ _
  · rw [← hcount]
    exact le_max_of_le_left hlimit

/-- An equation that is accepted has the value of its tree whatever its fields and functions are,
and the tree has the operators of the equation, not more than the limit, and divides by no literal
that is zero. -/
theorem parseArithmetic_meaning {equation : Text} {result : Operand F}
    {fields functions : List Text}
    (h : parseArithmetic config equation = .ok (result, fields, functions)) :
    (∀ (number : F → V) (assignment : Text → V) (v : V),
      IsValue (Leaf.value config.float number assignment) equation v ↔
        v = result.eval number assignment) ∧
    (∀ (number : F → V) (assignment : Text → V) (v : V) (tokens : List (Token Leaf)),
      Spells equation tokens →
        Denotes (Leaf.value config.float number assignment) .sum tokens v →
        result.operators = operators tokens) ∧
    result.DividesByNoZero config.isZero ∧
    (result.operators.length : ℤ) ≤ max config.limit 0 := by
  obtain ⟨_, -, hstands, hlimit⟩ := exists_stands (fun _ ↦ (0 : ℤ)) (fun _ ↦ 0) h
  refine ⟨fun number assignment v ↦ ?_, fun number assignment v tokens hspells hv ↦ ?_,
    hstands.dividesByNoZero, hstands.operators_eq ▸ hlimit⟩
  · obtain ⟨tokens, hspells, hstands, -⟩ := exists_stands number assignment h
    constructor
    · rintro ⟨tokens', hspells', hv⟩
      obtain rfl := hspells.unique_of_denotes hspells' hstands.denotes hv
      exact hv.unique hstands.denotes
    · rintro rfl
      exact ⟨tokens, hspells, hstands.denotes⟩
  · obtain ⟨tokens', hspells', hstands, -⟩ := exists_stands number assignment h
    rw [hstands.operators_eq, hspells'.unique_of_denotes hspells hstands.denotes hv]

/-- A literal without a point. -/
def integerLiteral : Text → ℤ
  | '-' :: digits => -integerLiteral digits
  | digits => digits.foldl (fun value digit ↦ 10 * value + (digit.toNat - '0'.toNat : ℤ)) 0

/-- The value of `7 -spans.db* -3/2 -1`, with a half for the field. -/
theorem parseArithmetic_meaning_signed :
    IsValue (Leaf.value integerLiteral ((↑) : ℤ → ℚ) fun _ ↦ 1 / 2)
      "7 -spans.db* -3/2 -1".toList (27 / 4) := by
  have haccepted : parseArithmetic ⟨none, [], integerLiteral, (· == 0)⟩
      "7 -spans.db* -3/2 -1".toList =
      .ok (.operation .minus (.operation .minus (.number 7)
        (.operation .divide (.operation .multiply (.name "spans.db".toList) (.number (-3)))
          (.number 2))) (.number 1), ["spans.db".toList], []) := by
    decide
  refine ((parseArithmetic_meaning haccepted).1 _ _ _).mpr ?_
  norm_num [Operand.eval, Operator.apply]

end Sentry.Discover.Arithmetic
