/- Reckon.Proofs.Expr.Formula — the computed part of a tree

A tree that asks for nothing but values, groups and the four operations is a
formula; any other tree has a first construct that is not computed, an operator
being looked at before its sides.  Both are one structural function,
`Expr.formula`, and walking a tree with a list of tasks comes to the same: the
formula's tokens in reading order, or the same fault (`inOrder_eq`).

The tree of a text has the shape that precedence gives to it, so its formula is
ordered (`ordered_of_derives`).
-/
import Reckon.Expr.InOrder
import Reckon.Proofs.Expr.Grammar
import Reckon.Proofs.Formula.Reorder

namespace Reckon.Expr
set_option autoImplicit false

/-- The formula that a tree asks for, or the fault of the first construct that
is not computed. -/
def formula : Expr → Except SourceFault Formula
  | literal form text position => (literalValue form text position).map .value
  | group inner _ => inner.formula.map .group
  | binary left op right position =>
    match op.operation? with
    | none => .error (refuse "operator" op.symbol position)
    | some operation =>
      match left.formula with
      | .error fault => .error fault
      | .ok before => right.formula.map (.node before operation)
  | signed op _ position => .error (refuse "unary operator" op.symbol position)
  | name text position => .error (.unsupported ("identifier '" ++ text ++ "'") position)
  | call callee position => .error (.unsupported ("call to '" ++ callee ++ "'") position)

/-! ## The walk -/

/-- Visiting a tree puts its tokens in front of all that is left to do. -/
theorem walk_visit (tree : Expr) (emitted : List Token) (tasks : List Task) :
    walk emitted (.visit tree :: tasks) =
      match tree.formula with
      | .error fault => .error fault
      | .ok formula => walk (formula.inOrder.reverse ++ emitted) tasks := by
  induction tree generalizing emitted tasks with
  | literal form text position =>
    rw [walk, formula]
    cases literalValue form text position <;> rfl
  | name text position => rw [walk, formula]
  | call callee position => rw [walk, formula]
  | signed op operand position _ => rw [walk, formula]
  | group inner position ih =>
    rw [walk, ih, formula]
    cases inner.formula with
    | error fault => rfl
    | ok contents => simp [Except.map, walk, Formula.inOrder]
  | binary left op right position ihLeft ihRight =>
    rw [walk, formula]
    cases op.operation? with
    | none => rfl
    | some operation =>
      simp only [ihLeft]
      cases left.formula with
      | error fault => rfl
      | ok before =>
        simp only [walk, ihRight]
        cases right.formula with
        | error fault => rfl
        | ok after => simp [Except.map, Formula.inOrder]

theorem inOrder_eq (tree : Expr) : tree.inOrder = tree.formula.map Formula.inOrder := by
  rw [inOrder, walk_visit]
  cases tree.formula with
  | error fault => rfl
  | ok formula => simp [walk, Except.map]

theorem inOrder_eq_ok_iff (tree : Expr) (tokens : List Token) :
    tree.inOrder = .ok tokens ↔
      ∃ formula, tree.formula = .ok formula ∧ formula.inOrder = tokens := by
  rw [inOrder_eq]
  cases tree.formula <;> simp [Except.map]

/-! ## What a formula's tree looks like -/

theorem formula_literal_eq_ok {form : NumberForm} {text : String} {position : Nat}
    {result : Formula} (computed : (literal form text position).formula = .ok result) :
    ∃ x, literalValue form text position = .ok x ∧ result = .value x := by
  rw [formula] at computed
  cases read : literalValue form text position with
  | error fault => simp [read, Except.map] at computed
  | ok x => exact ⟨x, rfl, by simpa [read, Except.map] using computed.symm⟩

theorem formula_group_eq_ok {inner : Expr} {position : Nat} {result : Formula}
    (computed : (group inner position).formula = .ok result) :
    ∃ contents, inner.formula = .ok contents ∧ result = .group contents := by
  rw [formula] at computed
  cases inside : inner.formula with
  | error fault => simp [inside, Except.map] at computed
  | ok contents => exact ⟨contents, rfl, by simpa [inside, Except.map] using computed.symm⟩

theorem formula_binary_eq_ok {left right : Expr} {op : BinaryOp} {position : Nat}
    {result : Formula} (computed : (binary left op right position).formula = .ok result) :
    ∃ operation before after, op.operation? = some operation ∧ left.formula = .ok before ∧
      right.formula = .ok after ∧ result = .node before operation after := by
  rw [formula] at computed
  split at computed
  · cases computed
  · rename_i operation supported
    split at computed
    · cases computed
    · rename_i before leftSide
      cases rightSide : right.formula with
      | error fault => simp [rightSide, Except.map] at computed
      | ok after =>
        exact ⟨operation, before, after, supported, leftSide, rfl,
          by simpa [rightSide, Except.map] using computed.symm⟩

/-! ## Shape -/

/-- An operation is as loose as its level in the grammar. -/
theorem rank_eq_level {op : BinaryOp} {operation : Operation}
    (supported : op.operation? = some operation) : operation.rank = op.level := by
  cases op <;> cases supported <;> rfl

/-- The grammar makes ordered trees only: what a category derives binds no
looser than the category. -/
theorem ordered_of_derives {room : Nat} {category : Category} {lexemes : List Placed}
    {tree : Expr} (derived : Derives room category lexemes tree) {result : Formula}
    (computed : tree.formula = .ok result) :
    result.Ordered ∧ result.looseness ≤ category.height - 1 := by
  induction derived generalizing result with
  | tighter follows _ ih =>
    obtain ⟨ordered, loose⟩ := ih computed
    have height := Category.height_of_next follows
    exact ⟨ordered, by omega⟩
  | binary position follows member written _ _ ihLeft ihRight =>
    obtain ⟨operation, before, after, supported, leftSide, rightSide, rfl⟩ :=
      formula_binary_eq_ok computed
    obtain ⟨leftOrdered, leftLoose⟩ := ihLeft leftSide
    obtain ⟨rightOrdered, rightLoose⟩ := ihRight rightSide
    obtain ⟨above, level⟩ := Category.height_of_mem_symbols follows member written
    have rank := rank_eq_level supported
    have positive := operation.rank_pos
    refine ⟨⟨?_, ?_, leftOrdered, rightOrdered⟩, ?_⟩
    · omega
    · omega
    · simp only [Formula.looseness]; omega
  | literal form text position =>
    obtain ⟨x, -, rfl⟩ := formula_literal_eq_ok computed
    exact ⟨trivial, Nat.zero_le _⟩
  | group position closing _ ih =>
    obtain ⟨contents, inside, rfl⟩ := formula_group_eq_ok computed
    exact ⟨(ih inside).1, Nat.zero_le _⟩
  | signed position written _ _ => simp [formula] at computed
  | name text position => simp [formula] at computed
  | call callee arguments position opening closing _ _ _ => simp [formula] at computed

end Reckon.Expr
