/- Reckon.Proofs.Formula.Regroup — the ordered formula behind a reading order

Reading order forgets the shape of a formula, so a formula of any shape has the
reading order of an ordered one.  `regroup` finds that one without going over
tokens: it turns the formula where an operation binds looser than the one above
it.  Reordering a reading order gives the postfix order of the regrouped formula
(`reorder_inOrder_regroup`).

That this is the postfix order of the formula itself only if nothing was turned
is shown by counting.  A turn changes how many operations stand on the left of
the root (`join_cases`), and a postfix order knows that number.
-/
import Reckon.Proofs.Formula.Assemble
import Reckon.Proofs.Formula.Reorder

namespace Reckon.Formula
set_option autoImplicit false

open Postfix

/-! ## Turning -/

/-- An operation and its right side behind an ordered formula.  The operation takes only what
binds no looser than it as its left side. -/
def attach : Formula → Operation → Formula → Formula
  | node left outer right, op, operand =>
      if op.rank < outer.rank then node left outer (right.attach op operand)
      else node (node left outer right) op operand
  | formula, op, operand => node formula op operand

/-- An operation between two ordered formulas.  On the right it takes only what binds tighter
than it. -/
def join (left : Formula) (op : Operation) : Formula → Formula
  | node first outer last =>
      if outer.rank < op.rank then left.attach op (node first outer last)
      else (left.join op first).attach outer last
  | formula => left.attach op formula

/-- The ordered formula with the same reading order. -/
def regroup : Formula → Formula
  | value x => value x
  | group inner => group inner.regroup
  | node left op right => left.regroup.join op right.regroup

theorem attach_eq (formula : Formula) (op : Operation) (operand : Formula) :
    formula.attach op operand = node formula op operand ∨
      ∃ left outer right, formula = node left outer right ∧ op.rank < outer.rank ∧
        formula.attach op operand = node left outer (right.attach op operand) := by
  cases formula with
  | value x => exact .inl rfl
  | group inner => exact .inl rfl
  | node left outer right =>
    by_cases looser : op.rank < outer.rank
    · exact .inr ⟨left, outer, right, rfl, looser, if_pos looser⟩
    · exact .inl (if_neg looser)

/-! ## What turning keeps -/

theorem inOrder_attach (formula : Formula) (op : Operation) (operand : Formula) :
    (formula.attach op operand).inOrder = formula.inOrder ++ .operation op :: operand.inOrder := by
  induction formula with
  | value x => rfl
  | group inner _ => rfl
  | node left outer right _ ih =>
    rw [attach]
    split
    · simp [inOrder, ih]
    · rfl

theorem inOrder_join (left : Formula) (op : Operation) (right : Formula) :
    (left.join op right).inOrder = left.inOrder ++ .operation op :: right.inOrder := by
  induction right with
  | value x => exact inOrder_attach _ _ _
  | group inner _ => exact inOrder_attach _ _ _
  | node first outer last ih _ =>
    rw [join]
    split
    · exact inOrder_attach _ _ _
    · simp [inOrder_attach, ih, inOrder]

theorem inOrder_regroup (formula : Formula) : formula.regroup.inOrder = formula.inOrder := by
  induction formula with
  | value x => rfl
  | group inner ih => rw [regroup, inOrder, ih, inOrder]
  | node left op right ihLeft ihRight =>
    rw [regroup, inOrder_join, ihLeft, ihRight, inOrder]

/-- The number of operations. -/
def operations : Formula → Nat
  | value _ => 0
  | group inner => inner.operations
  | node left _ right => left.operations + right.operations + 1

theorem operations_ungroup (formula : Formula) :
    formula.ungroup.operations = formula.operations := by
  induction formula with
  | value x => rfl
  | group inner ih => exact ih
  | node left op right ihLeft ihRight => rw [ungroup, operations, ihLeft, ihRight, operations]

theorem operations_eq_countP (formula : Formula) :
    formula.operations = formula.inOrder.countP Token.isOperation := by
  induction formula with
  | value x => rfl
  | group inner ih => simp [operations, inOrder, ih, Token.isOperation]
  | node left op right ihLeft ihRight =>
    simp [operations, inOrder, ihLeft, ihRight, List.countP_cons, Token.isOperation]
    omega

theorem operations_join (left : Formula) (op : Operation) (right : Formula) :
    (left.join op right).operations = left.operations + right.operations + 1 := by
  simp [operations_eq_countP, inOrder_join, List.countP_cons, Token.isOperation]
  omega

theorem operations_regroup (formula : Formula) :
    formula.regroup.operations = formula.operations := by
  rw [operations_eq_countP, inOrder_regroup, ← operations_eq_countP]

/-! ## The turned formula is ordered -/

theorem looseness_attach_le (formula : Formula) (op : Operation) (operand : Formula) :
    (formula.attach op operand).looseness ≤ max formula.looseness op.rank := by
  rcases attach_eq formula op operand with kept | ⟨left, outer, right, rfl, -, turned⟩
  · rw [kept]
    exact Nat.le_max_right _ _
  · rw [turned]
    exact Nat.le_max_left _ _

theorem ordered_attach {formula operand : Formula} {op : Operation} (ordered : formula.Ordered)
    (operandOrdered : operand.Ordered) (tighter : operand.looseness < op.rank) :
    (formula.attach op operand).Ordered := by
  induction formula with
  | value x => exact ⟨Nat.zero_le _, tighter, ordered, operandOrdered⟩
  | group inner _ => exact ⟨Nat.zero_le _, tighter, ordered, operandOrdered⟩
  | node left outer right _ ih =>
    rw [attach]
    split
    case isTrue looser =>
      obtain ⟨leftLe, rightLt, leftOrdered, rightOrdered⟩ := ordered
      have loose := looseness_attach_le right op operand
      exact ⟨leftLe, by omega, leftOrdered, ih rightOrdered⟩
    case isFalse tight => exact ⟨Nat.le_of_not_lt tight, tighter, ordered, operandOrdered⟩

theorem ordered_join {left right : Formula} {op : Operation} (leftOrdered : left.Ordered)
    (rightOrdered : right.Ordered) : (left.join op right).Ordered := by
  induction right with
  | value x => exact ordered_attach leftOrdered rightOrdered op.rank_pos
  | group inner _ => exact ordered_attach leftOrdered rightOrdered op.rank_pos
  | node first outer last ih _ =>
    rw [join]
    split
    case isTrue tighter => exact ordered_attach leftOrdered rightOrdered tighter
    case isFalse _ =>
      obtain ⟨-, lastLt, firstOrdered, lastOrdered⟩ := rightOrdered
      exact ordered_attach (ih firstOrdered) lastOrdered lastLt

theorem ordered_regroup (formula : Formula) : formula.regroup.Ordered := by
  induction formula with
  | value x => trivial
  | group inner ih => exact ih
  | node left op right ihLeft ihRight => exact ordered_join ihLeft ihRight

/-- Reordering finds the ordered formula behind a reading order. -/
theorem reorder_inOrder_regroup (formula : Formula) :
    reorder formula.inOrder = formula.regroup.postOrder := by
  rw [← inOrder_regroup, reorder_inOrder (ordered_regroup formula)]

/-! ## A turn shows -/

/-- Joining two formulas keeps them as the two sides, or leaves another number of operations on
the left. -/
theorem join_cases (left : Formula) (op : Operation) (right : Formula) :
    left.join op right = node left op right ∨
      ∃ first outer last, left.join op right = node first outer last ∧
        first.operations ≠ left.operations := by
  have attached (operand : Formula) : left.attach op operand = node left op operand ∨
      ∃ first outer last, left.attach op operand = node first outer last ∧
        first.operations ≠ left.operations := by
    rcases attach_eq left op operand with kept | ⟨first, outer, last, rfl, -, turned⟩
    · exact .inl kept
    · refine .inr ⟨_, _, _, turned, ?_⟩
      rw [operations]
      omega
  induction right with
  | value x => exact attached _
  | group inner _ => exact attached _
  | node first outer last ih _ =>
    rw [join]
    split
    case isTrue _ => exact attached _
    case isFalse looser =>
      refine .inr ?_
      rcases attach_eq (left.join op first) outer last with kept |
        ⟨outermost, above, inner, whole, tighter, turned⟩
      · refine ⟨_, _, _, kept, ?_⟩
        rw [operations_join]
        omega
      · -- The join below was turned as well, so its left side is not `left`.
        rcases ih with same | ⟨_, _, _, split, fewer⟩
        · rw [same] at whole
          cases whole
          exact absurd tighter looser
        · rw [split] at whole
          cases whole
          exact ⟨_, _, _, turned, fewer⟩

/-- A formula whose values and operations stand as before was not turned. -/
theorem regroup_eq_self {formula : Formula} (same : formula.regroup.ungroup = formula.ungroup) :
    formula.regroup = formula := by
  induction formula with
  | value x => rfl
  | group inner ih => rw [regroup, ih same]
  | node left op right ihLeft ihRight =>
    rw [regroup] at same ⊢
    rcases join_cases left.regroup op right.regroup with kept | ⟨_, _, _, turned, other⟩
    · rw [kept] at same ⊢
      injection same with sameLeft _ sameRight
      rw [ihLeft sameLeft, ihRight sameRight]
    · rw [turned] at same
      injection same with sameLeft
      rw [operations_regroup, ← operations_ungroup, sameLeft, operations_ungroup] at other
      exact absurd rfl other

/-- Reordering gives a formula's own postfix order if and only if the formula is ordered. -/
theorem reorder_inOrder_eq_postOrder_iff (formula : Formula) :
    reorder formula.inOrder = formula.postOrder ↔ formula.Ordered := by
  refine ⟨fun same => ?_, reorder_inOrder⟩
  rw [reorder_inOrder_regroup] at same
  rw [← regroup_eq_self (ungroup_eq_of_postOrder_eq same)]
  exact ordered_regroup formula

end Reckon.Formula
