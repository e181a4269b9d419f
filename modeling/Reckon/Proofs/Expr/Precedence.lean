/- Reckon.Proofs.Expr.Precedence — which trees reordering understands

Walking a tree for its tokens forgets the tree's shape, and reordering decides
from precedence alone what the shape was.  It decides rightly for a tree, however
the tree was made, if and only if no operation has a side that only a group
could have given it (`reorder_inOrder_iff_respectsPrecedence`).
-/
import Reckon.Proofs.Expr.Leftmost
import Reckon.Proofs.Formula.Regroup

namespace Reckon.Expr
set_option autoImplicit false

/-- An addition or a subtraction, in no group. -/
def IsSum : Expr → Prop
  | binary _ op _ _ => op = .add ∨ op = .sub
  | _ => False

/-- An operator between two sides, in no group. -/
def IsBinary : Expr → Prop
  | binary .. => True
  | _ => False

/-- No addition or subtraction has another one on its right, and no multiplication or division
has an addition or subtraction on its left or any operator on its right. -/
def RespectsPrecedence (tree : Expr) : Prop :=
  ∀ left op right position, binary left op right position ∈ tree.nodes →
    ((op = .add ∨ op = .sub) → ¬right.IsSum) ∧
    ((op = .mul ∨ op = .div) → ¬left.IsSum ∧ ¬right.IsBinary)

/-! ## Shape -/

/-- How loosely a formula binds tells what stands at the root of its tree. -/
theorem root_iff_looseness {tree : Expr} {result : Formula}
    (computed : tree.formula = .ok result) :
    (tree.IsSum ↔ result.looseness = 2) ∧ (tree.IsBinary ↔ 0 < result.looseness) := by
  cases tree with
  | literal form text position =>
    obtain ⟨x, -, rfl⟩ := formula_literal_eq_ok computed
    simp [IsSum, IsBinary, Formula.looseness]
  | group inner position =>
    obtain ⟨contents, -, rfl⟩ := formula_group_eq_ok computed
    simp [IsSum, IsBinary, Formula.looseness]
  | binary left op right position =>
    obtain ⟨operation, before, after, supported, -, -, rfl⟩ := formula_binary_eq_ok computed
    cases op <;> cases supported <;>
      simp [IsSum, IsBinary, Formula.looseness, Operation.rank, Operation.isMultiplicative]
  | name text position => cases computed
  | call callee position => cases computed
  | signed op operand position => cases computed

theorem respectsPrecedence_group (inner : Expr) (position : Nat) :
    (group inner position).RespectsPrecedence ↔ inner.RespectsPrecedence := by
  simp [RespectsPrecedence, nodes]

theorem respectsPrecedence_binary (left right : Expr) (op : BinaryOp) (position : Nat) :
    (binary left op right position).RespectsPrecedence ↔
      (((op = .add ∨ op = .sub) → ¬right.IsSum) ∧
        ((op = .mul ∨ op = .div) → ¬left.IsSum ∧ ¬right.IsBinary)) ∧
      left.RespectsPrecedence ∧ right.RespectsPrecedence := by
  constructor
  · intro respects
    refine ⟨respects left op right position List.mem_cons_self, ?_, ?_⟩
    · intro first op' last place member
      exact respects first op' last place (List.mem_cons_of_mem _ (List.mem_append_left _ member))
    · intro first op' last place member
      exact respects first op' last place (List.mem_cons_of_mem _ (List.mem_append_right _ member))
  · rintro ⟨here, inLeft, inRight⟩ first op' last place member
    rcases List.mem_cons.mp member with same | below
    · cases same
      exact here
    · rcases List.mem_append.mp below with onLeft | onRight
      · exact inLeft first op' last place onLeft
      · exact inRight first op' last place onRight

/-- What precedence asks of one operation, said of looseness. -/
theorem sides_iff_looseness {left right : Expr} {op : BinaryOp} {operation : Operation}
    {before after : Formula} (supported : op.operation? = some operation)
    (leftSide : left.formula = .ok before) (rightSide : right.formula = .ok after) :
    (((op = .add ∨ op = .sub) → ¬right.IsSum) ∧
        ((op = .mul ∨ op = .div) → ¬left.IsSum ∧ ¬right.IsBinary)) ↔
      before.looseness ≤ operation.rank ∧ after.looseness < operation.rank := by
  have leftMost := before.looseness_le
  have rightMost := after.looseness_le
  rw [(root_iff_looseness leftSide).1, (root_iff_looseness rightSide).1,
    (root_iff_looseness rightSide).2]
  cases op <;> cases supported <;> simp [Operation.rank, Operation.isMultiplicative] <;> omega

/-- A tree respects precedence exactly if its formula is ordered. -/
theorem ordered_iff_respectsPrecedence {tree : Expr} {result : Formula}
    (computed : tree.formula = .ok result) : result.Ordered ↔ tree.RespectsPrecedence := by
  induction tree generalizing result with
  | literal form text position =>
    obtain ⟨x, -, rfl⟩ := formula_literal_eq_ok computed
    simp [Formula.Ordered, RespectsPrecedence, nodes]
  | group inner position ih =>
    obtain ⟨contents, inside, rfl⟩ := formula_group_eq_ok computed
    rw [respectsPrecedence_group, ← ih inside, Formula.Ordered]
  | binary left op right position ihLeft ihRight =>
    obtain ⟨operation, before, after, supported, leftSide, rightSide, rfl⟩ :=
      formula_binary_eq_ok computed
    rw [respectsPrecedence_binary, sides_iff_looseness supported leftSide rightSide,
      ← ihLeft leftSide, ← ihRight rightSide, Formula.Ordered, and_assoc]
  | name text position => cases computed
  | call callee position => cases computed
  | signed op operand position => cases computed

/-! ## Reordering -/

/-- **Which trees reordering understands.**  The tokens of a tree, reordered, are the postfix
order of the tree's formula if and only if the tree respects precedence at every node. -/
theorem reorder_inOrder_iff_respectsPrecedence {tree : Expr} {tokens : List Token}
    (flat : tree.inOrder = .ok tokens) :
    ∃ formula, tree.formula = .ok formula ∧
      (Postfix.reorder tokens = formula.postOrder ↔ tree.RespectsPrecedence) := by
  obtain ⟨formula, computed, rfl⟩ := (inOrder_eq_ok_iff tree tokens).mp flat
  refine ⟨formula, computed, ?_⟩
  rw [Formula.reorder_inOrder_eq_postOrder_iff, ordered_iff_respectsPrecedence computed]

/-- A difference on the right of a subtraction, in no group, is lost. -/
theorem reorder_difference_on_right :
    let tree : Expr := .binary (.literal .integer "1" 0) .sub
      (.binary (.literal .integer "2" 2) .sub (.literal .integer "3" 4) 3) 1
    ∃ tokens formula, tree.inOrder = .ok tokens ∧ tree.formula = .ok formula ∧
      (Postfix.reorder tokens = formula.postOrder ↔ tree.RespectsPrecedence) ∧
      ¬tree.RespectsPrecedence := by
  intro tree
  have one : Number.readInteger? "1" = some 1 := by cbv
  have two : Number.readInteger? "2" = some 2 := by cbv
  have three : Number.readInteger? "3" = some 3 := by cbv
  have computed : tree.formula = .ok (.node (.value (Number.ofInteger 1)) .sub
      (.node (.value (Number.ofInteger 2)) .sub (.value (Number.ofInteger 3)))) := by
    simp [tree, Expr.formula, literalValue, one, two, three, Except.map, BinaryOp.operation?]
  have flat := (inOrder_eq_ok_iff tree _).mpr ⟨_, computed, rfl⟩
  obtain ⟨formula, computed', same⟩ := reorder_inOrder_iff_respectsPrecedence flat
  refine ⟨_, formula, flat, computed', same, fun respects => ?_⟩
  have right := (respects _ _ _ _ List.mem_cons_self).1 (.inr rfl)
  exact right (.inr rfl)

end Reckon.Expr
