/- Reckon.Proofs.Formula.Basic — what is computed

A formula is the part of the grammar that is computed: values, groups and the
four operations.  It has two orders.  Reading order keeps the parentheses and
leaves precedence to whoever reads it; postfix order drops them, since it needs
neither.

`evaluate` computes a formula by recursion, the left side first.  It fails at
the first division by a zero of either sign and answers with the place of that
division in postfix order; `evaluate_eq_error_iff` says so without recursion,
over the list of all nodes.
-/
import Reckon.Proofs.Number.Bits
import Reckon.Token

namespace Reckon
set_option autoImplicit false

namespace Operation

/-- The result of an operation on doubles. -/
def compute (op : Operation) (left right : Float) : Float :=
  match op with
  | add => left + right
  | sub => left - right
  | mul => left * right
  | div => left / right

/-- How loosely an operation binds. -/
def rank (op : Operation) : Nat := if op.isMultiplicative then 1 else 2

theorem rank_pos (op : Operation) : 0 < op.rank := by cases op <;> decide

theorem rank_le (op : Operation) : op.rank ≤ 2 := by cases op <;> decide

end Operation

/-- Values, groups and operations. -/
inductive Formula where
  | value (x : Float)
  | group (inner : Formula)
  | node (left : Formula) (op : Operation) (right : Formula)

namespace Formula

/-! ## The two orders -/

/-- The tokens from left to right, groups between parentheses. -/
def inOrder : Formula → List Token
  | value x => [.value x]
  | group inner => .leftParen :: (inner.inOrder ++ [.rightParen])
  | node left op right => left.inOrder ++ .operation op :: right.inOrder

/-- The tokens with every operation behind its two sides. -/
def postOrder : Formula → List Token
  | value x => [.value x]
  | group inner => inner.postOrder
  | node left op right => left.postOrder ++ (right.postOrder ++ [.operation op])

/-- The values and operations of a formula in postfix order, each with all that
it is computed from. -/
def nodes : Formula → List Formula
  | value x => [value x]
  | group inner => inner.nodes
  | node left op right => left.nodes ++ (right.nodes ++ [node left op right])

/-- The token at the root of a formula. -/
def root : Formula → Token
  | value x => .value x
  | group inner => inner.root
  | node _ op _ => .operation op

/-- The nodes stand where their tokens stand. -/
theorem map_root_nodes (formula : Formula) : formula.nodes.map root = formula.postOrder := by
  induction formula with
  | value x => rfl
  | group inner ih => exact ih
  | node left op right ihLeft ihRight => simp [nodes, postOrder, ihLeft, ihRight, root]

theorem length_nodes (formula : Formula) : formula.nodes.length = formula.postOrder.length := by
  rw [← map_root_nodes, List.length_map]

/-! ## The value -/

/-- The value of a formula, or the place in postfix order of the first division
by zero. -/
def evaluate : Formula → Except Nat Float
  | value x => .ok x
  | group inner => inner.evaluate
  | node left op right =>
    match left.evaluate with
    | .error index => .error index
    | .ok x =>
      match right.evaluate with
      | .error index => .error (left.postOrder.length + index)
      | .ok y =>
        if op = .div ∧ Number.IsZero y then
          .error (left.postOrder.length + right.postOrder.length)
        else .ok (op.compute x y)

/-- The formula is a division whose right side is a zero. -/
def dividesByZero : Formula → Bool
  | node _ op right =>
    match right.evaluate with
    | .ok y => op = .div ∧ Number.IsZero y
    | .error _ => false
  | _ => false

theorem findIdx?_nodes (formula : Formula) :
    formula.nodes.findIdx? dividesByZero =
      match formula.evaluate with
      | .ok _ => none
      | .error index => some index := by
  induction formula with
  | value x => rfl
  | group inner ih => exact ih
  | node left op right ihLeft ihRight =>
    rw [nodes, List.findIdx?_append, List.findIdx?_append, ihLeft, ihRight, evaluate]
    cases left.evaluate with
    | error index => rfl
    | ok x =>
      cases evaluated : right.evaluate with
      | error index => simp [length_nodes, Nat.add_comm]
      | ok y =>
        by_cases zero : op = .div ∧ Number.IsZero y
        · simp [dividesByZero, evaluated, zero, length_nodes, Nat.add_comm]
        · simp [dividesByZero, evaluated, zero]

/-- The evaluation stops at the first division by zero there is. -/
theorem evaluate_eq_error_iff (formula : Formula) (index : Nat) :
    formula.evaluate = .error index ↔ formula.nodes.findIdx? dividesByZero = some index := by
  rw [findIdx?_nodes]
  cases formula.evaluate <;> simp

end Formula
end Reckon
