/- Reckon.Proofs.Expr.Activation — how many activations of the parsers are nested

A whole expression is read by reading unary expressions, and these read what is nested in them:
the operand of a sign is a unary expression again, and what stands between parentheses a whole
one.  Here each activation of either reader is paid for out of an allowance of its kind, and an
activation for which nothing is left is none: another parser, whatever it does, answers in its
place.  Depth is counted as well, and the limit on it holds as before.

Chains and argument lists activate one reader after the other, so however long they are they
cost no more than their longest part.  Only what is nested costs more, and whatever is nested is
one level deeper, so at most 129 activations of each kind are ever nested in each other.  With an
allowance of 129 the other parser is never asked, on any lexemes, and with less it sometimes is
(`allowance_suffices_iff`).
-/
import Mathlib.Tactic
import Reckon.Expr.Parse

namespace Reckon.Expr
set_option autoImplicit false

/-! ## Readers of what is nested -/

/-- What reads the parts that are nested one level deeper. -/
structure Inner where
  /-- Reads the operand of a prefix operator. -/
  operand : Parser Expr
  /-- Reads what stands between parentheses: what is in a group, or an argument. -/
  enclosed : Parser Expr

/-- The two readers that one reader of unary expressions makes. -/
def Inner.of (unary : Parser Expr) : Inner where
  operand := unary
  enclosed := expression unary

section Rest
variable {start : List Placed}

theorem length_lt_cons (placed : Placed) (rest : List Placed) :
    rest.length < (placed :: rest).length := Nat.lt_succ_self rest.length

/-- What is left behind the first lexeme. -/
def Shorter.behind (placed : Placed) (rest : List Placed) : Shorter (placed :: rest) :=
  ⟨rest, length_lt_cons placed rest⟩

/-- What is left behind one lexeme more. -/
def Shorter.tail (input : Shorter start) : Shorter start :=
  ⟨input.val.tail, Nat.lt_of_le_of_lt (input.val.length_tail ▸ Nat.sub_le _ _) input.property⟩

/-- The rest of a call, its arguments read as what is enclosed. -/
def callRestWith (inner : Option Inner) (opened : Nat) (input : Shorter start) :
    Except SourceFault (Shorter start) :=
  match inner with
  | none => .error (.nestingTooDeep opened)
  | some inner =>
    if input.val.head?.map Placed.lexeme = some (.symbol .rightParen) then .ok input.tail
    else skipArguments inner.enclosed input

/-- The rest of a group, its contents read as what is enclosed. -/
def groupRestWith (inner : Option Inner) (opened : Nat) (input : Shorter start) :
    Except SourceFault (Expr × Shorter start) :=
  match inner with
  | none => .error (.nestingTooDeep opened)
  | some inner => do
    let read ← inner.enclosed input.val
    match read.2.val.head? with
    | none => .error (.unclosedGroup opened)
    | some placed =>
      if placed.lexeme = .symbol .rightParen then
        .ok (.group read.1 opened,
          Shorter.tail ⟨read.2.val, Nat.lt_trans read.2.property input.property⟩)
      else .error (.unexpectedLexeme placed.lexeme.shown placed.position)

end Rest

/-- A unary expression, with a reader of its own for either kind of nested part. -/
def unaryWith (inner : Option Inner) : Parser Expr
  | ⟨.name text, position⟩ :: ⟨.symbol .leftParen, opened⟩ :: _ => do
    let rest ← callRestWith inner opened (Shorter.behind _ _).tail
    return (.call text position, rest)
  | ⟨.symbol .leftParen, opened⟩ :: _ => groupRestWith inner opened (.behind _ _)
  | input => unaryOver (inner.map Inner.operand) input

section Same
variable {start : List Placed} (deeper : Option (Parser Expr)) (opened : Nat)
  (input : Shorter start)

theorem callRestWith_of :
    callRestWith (deeper.map Inner.of) opened input = callRest deeper opened input := by
  cases deeper with
  | none => rfl
  | some unary =>
    show (if input.val.head?.map Placed.lexeme = some (.symbol .rightParen) then .ok input.tail
      else skipArguments (expression unary) input) = callRest (some unary) opened input
    split
    · rename_i closes
      obtain ⟨lexemes, shorter⟩ := input
      obtain ⟨⟨_, position⟩, first, rfl⟩ := Option.map_eq_some_iff.mp closes
      obtain ⟨rest, rfl⟩ := List.head?_eq_some_iff.mp first
      rfl
    · rename_i other
      rw [callRest]
      rintro position rest shorter rfl
      exact other rfl

theorem groupRestWith_of :
    groupRestWith (deeper.map Inner.of) opened input = groupRest deeper opened input := by
  cases deeper with
  | none => rfl
  | some unary =>
    show (expression unary input.val >>= _) = groupRest (some unary) opened input
    rw [groupRest]
    split
    · rename_i failed
      rw [failed]
      rfl
    · rename_i read
      rw [read]
      rfl
    · rename_i read
      rw [read]
      rfl

end Same

/-- Both readers may be made of one. -/
theorem unaryWith_of (deeper : Option (Parser Expr)) :
    unaryWith (deeper.map Inner.of) = unaryOver deeper := by
  funext input
  unfold unaryWith
  split
  · rw [callRestWith_of, unaryOver]
    split
    · rename_i failed
      exact congrArg (Except.map _) failed
    · rename_i read
      exact congrArg (Except.map _) read
  · exact groupRestWith_of deeper _ _
  · have operands : (deeper.map Inner.of).map Inner.operand = deeper := by
      cases deeper <;> rfl
    rw [operands]

/-! ## Allowances -/

/-- What is nested at a depth may be read if there is a level below. -/
def descend (depth : Nat) (inner : Inner) : Option Inner :=
  if depth < maxNesting then some inner else none

mutual

/-- A whole expression at a depth, with an allowance of activations of either reader, this one
included; `beyond` answers for activations that are not paid for. -/
def expressionWithin (beyond : Parser Expr) (depth : Nat) :
    (expressions unaries : Nat) → Parser Expr
  | 0, _ => beyond
  | expressions + 1, unaries => expression (unaryWithin beyond depth expressions unaries)
termination_by expressions unaries => expressions + unaries

/-- A unary expression at a depth, with an allowance of activations of either reader. -/
def unaryWithin (beyond : Parser Expr) (depth : Nat) :
    (expressions unaries : Nat) → Parser Expr
  | _, 0 => beyond
  | expressions, unaries + 1 =>
      unaryWith (descend depth
        { operand := unaryWithin beyond (depth + 1) expressions unaries
          enclosed := expressionWithin beyond (depth + 1) expressions unaries })
termination_by expressions unaries => expressions + unaries

end

/-- The tree of a lexeme list that `whole` reads as exactly one expression. -/
def ofLexemesBy (whole : Parser Expr) (lexemes : List Placed) : Except SourceFault Expr :=
  match whole lexemes with
  | .error fault => .error fault
  | .ok (tree, ⟨[], _⟩) => .ok tree
  | .ok (_, ⟨placed :: _, _⟩) =>
      .error (.trailingLexeme placed.lexeme.shown placed.position)

theorem ofLexemesBy_unary : ofLexemesBy (expression (unary maxNesting)) = ofLexemes := rfl

/-! ## Enough -/

section Enough
variable {room depth expressions unaries : Nat}

/-- With one activation for each level that is left, and one more for this unary expression, there
is as much room as without an allowance. -/
theorem unaryWithin_eq_unary (beyond : Parser Expr) (left : depth + room = maxNesting)
    (enough : room ≤ expressions) (enough' : room < unaries) :
    unaryWithin beyond depth expressions unaries = unary room := by
  induction room generalizing depth expressions unaries with
  | zero =>
    obtain ⟨unaries, rfl⟩ := Nat.exists_eq_succ_of_ne_zero (Nat.ne_of_gt enough')
    have deepest : ¬depth < maxNesting := by omega
    rw [unaryWithin, descend, if_neg deepest, ← Option.map_none Inner.of, unaryWith_of, unary]
  | succ room ih =>
    obtain ⟨unaries, rfl⟩ := Nat.exists_eq_add_of_lt enough'
    obtain ⟨expressions, rfl⟩ := Nat.exists_eq_add_of_le' enough
    have below : depth < maxNesting := by omega
    have operand (expressions : Nat) (enough : room ≤ expressions) :
        unaryWithin beyond (depth + 1) expressions (room + 1 + unaries) = unary room :=
      ih (by omega) enough (by omega)
    rw [unaryWithin, descend, if_pos below, ← Nat.add_assoc expressions, expressionWithin,
      operand _ (by omega), operand _ (by omega), unary]
    exact unaryWith_of (some (unary room))

/-- From the top, 129 activations of either kind are enough. -/
theorem expressionWithin_eq (beyond : Parser Expr) (enough : maxNesting < expressions)
    (enough' : maxNesting < unaries) :
    expressionWithin beyond 0 expressions unaries = expression (unary maxNesting) := by
  obtain ⟨expressions, rfl⟩ := Nat.exists_eq_add_of_lt enough
  rw [expressionWithin, unaryWithin_eq_unary beyond (Nat.zero_add _) (Nat.le_add_right _ _) enough']

end Enough

/-! ## Too little -/

section Short
variable {depth expressions unaries : Nat} {fault : SourceFault}

/-- A whole expression starts with a unary one, and fails with it. -/
theorem expression_eq_error {parser : Parser Expr} {input : List Placed}
    (failed : parser input = .error fault) : expression parser input = .error fault := by
  have ladders (height : Nat) : ladder parser height input = .error fault := by
    induction height with
    | zero => exact failed
    | succ height ih => rw [ladder, chain, ih]
  exact ladders _

/-- Parentheses that open one behind the other are nested, and each takes one activation of either
kind, up to where nothing is left. -/
theorem expressionWithin_opening {lexemes : List Placed}
    (opening : ∀ placed ∈ lexemes, placed.lexeme = .symbol .leftParen)
    (shallow : depth + lexemes.length ≤ maxNesting)
    (short : expressions ≤ lexemes.length ∨ unaries ≤ lexemes.length) :
    expressionWithin (fun _ => .error fault) depth expressions unaries lexemes = .error fault := by
  induction lexemes generalizing depth expressions unaries with
  | nil =>
    cases expressions with
    | zero => rw [expressionWithin]
    | succ expressions =>
      obtain rfl : unaries = 0 := by simpa using short
      rw [expressionWithin]
      exact expression_eq_error (by rw [unaryWithin])
  | cons placed rest ih =>
    obtain ⟨lexeme, position⟩ := placed
    obtain ⟨rfl, others⟩ : lexeme = .symbol .leftParen ∧
        ∀ placed ∈ rest, placed.lexeme = .symbol .leftParen := List.forall_mem_cons.mp opening
    cases expressions with
    | zero => rw [expressionWithin]
    | succ expressions =>
      rw [expressionWithin]
      apply expression_eq_error
      cases unaries with
      | zero => rw [unaryWithin]
      | succ unaries =>
        simp only [List.length_cons] at shallow short
        have below : depth < maxNesting := by omega
        have inside := ih others (show depth + 1 + rest.length ≤ maxNesting by omega)
          (show expressions ≤ rest.length ∨ unaries ≤ rest.length by omega)
        rw [unaryWithin, descend, if_pos below]
        simp only [unaryWith, groupRestWith, Shorter.behind, inside]
        rfl

end Short

/-- **How deep the parsers are nested in each other.**  Let any other parser answer in the place of
each activation of a reader that is nested in more than an allowed number of activations of its
kind.  That changes nothing, whatever the lexemes are and whatever the other parser does, exactly if
at least 129 nested activations of either reader are allowed. -/
theorem allowance_suffices_iff (expressions unaries : Nat) :
    (∀ (beyond : Parser Expr) (lexemes : List Placed),
      ofLexemesBy (expressionWithin beyond 0 expressions unaries) lexemes = ofLexemes lexemes) ↔
      129 ≤ expressions ∧ 129 ≤ unaries := by
  constructor
  · intro same
    by_contra few
    -- Two parsers that answer differently would have to give the same answer here.
    have opening : ∀ placed ∈ List.replicate maxNesting (⟨.symbol .leftParen, 0⟩ : Placed),
        placed.lexeme = .symbol .leftParen := by
      intro placed member
      rw [List.eq_of_mem_replicate member]
    have length : (List.replicate maxNesting (⟨.symbol .leftParen, 0⟩ : Placed)).length =
        maxNesting := List.length_replicate
    have answer (fault : SourceFault) :
        ofLexemes (List.replicate maxNesting ⟨.symbol .leftParen, 0⟩) = .error fault := by
      rw [← same fun _ => .error fault, ofLexemesBy,
        expressionWithin_opening opening (by omega) (by rw [length]; unfold maxNesting; omega)]
    cases (answer .endOfText).symm.trans (answer (.unknownToken ""))
  · rintro ⟨enough, enough'⟩ beyond lexemes
    rw [expressionWithin_eq beyond enough enough', ofLexemesBy_unary]

end Reckon.Expr
