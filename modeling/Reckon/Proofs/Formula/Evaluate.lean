/- Reckon.Proofs.Formula.Evaluate — postfix order is evaluated as the formula

Running the postfix order of a formula, whatever is on the stack and whatever
follows, pushes the formula's value or stops where the formula's own evaluation
stops (`run_postOrder`).  So the value of a postfix order is the value of the
formula, and no fault but a division by zero comes out of one.
-/
import Reckon.Postfix.Evaluate
import Reckon.Proofs.Formula.Basic

namespace Reckon.Postfix
set_option autoImplicit false

/-- One operation on doubles, with the zero divisor told apart by its bits. -/
theorem apply_eq (op : Operation) (left right : Float) (index : Nat) :
    apply op left right index =
      if op = .div ∧ Number.IsZero right then .error (.divisionByZero index)
      else .ok (op.compute left right) := by
  cases op with
  | div =>
    simp only [apply, Number.eq_zero_iff, true_and]
    rfl
  | _ => rfl

theorem run_cons (values : Stack Float) (index : Nat) (token : Token) (tokens : List Token) :
    run values index (token :: tokens) =
      match step values index token with
      | .error fault => .error fault
      | .ok values => run values (index + 1) tokens := rfl

theorem step_operation (op : Operation) (left right : Float) (items : List Float) (index : Nat) :
    step ⟨right :: left :: items⟩ index (.operation op) =
      if op = .div ∧ Number.IsZero right then .error (.divisionByZero index)
      else .ok ⟨op.compute left right :: items⟩ := by
  rw [step, apply_eq]
  by_cases zero : op = .div ∧ Number.IsZero right
  · rw [if_pos zero, if_pos zero]
    rfl
  · rw [if_neg zero, if_neg zero]
    rfl

theorem run_operation (op : Operation) (left right : Float) (items : List Float) (index : Nat)
    (tokens : List Token) :
    run ⟨right :: left :: items⟩ index (.operation op :: tokens) =
      if op = .div ∧ Number.IsZero right then .error (.divisionByZero index)
      else run ⟨op.compute left right :: items⟩ (index + 1) tokens := by
  rw [run_cons, step_operation]
  by_cases zero : op = .div ∧ Number.IsZero right
  · simp only [if_pos zero]
  · simp only [if_neg zero]

/-- The tokens behind others are run on the stack that those leave. -/
theorem run_append (values : Stack Float) (index : Nat) (before after : List Token) :
    run values index (before ++ after) =
      match run values index before with
      | .error fault => .error fault
      | .ok values => run values (index + before.length) after := by
  induction before generalizing values index with
  | nil => rfl
  | cons token before ih =>
    rw [List.cons_append, run_cons, run_cons]
    cases step values index token with
    | error fault => rfl
    | ok next =>
      simp only [ih, List.length_cons]
      rw [Nat.add_assoc, Nat.add_comm 1]

/-- Running a formula's postfix order is evaluating the formula, on any stack
and before any tokens. -/
theorem run_postOrder (formula : Formula) (items : List Float) (index : Nat)
    (rest : List Token) :
    run ⟨items⟩ index (formula.postOrder ++ rest) =
      match formula.evaluate with
      | .error place => .error (.divisionByZero (index + place))
      | .ok x => run ⟨x :: items⟩ (index + formula.postOrder.length) rest := by
  induction formula generalizing items index rest with
  | value x => rfl
  | group inner ih => exact ih items index rest
  | node left op right ihLeft ihRight =>
    have reassociate : (Formula.node left op right).postOrder ++ rest =
        left.postOrder ++ (right.postOrder ++ .operation op :: rest) := by
      simp [Formula.postOrder]
    rw [reassociate, ihLeft, Formula.evaluate]
    cases left.evaluate with
    | error place => rfl
    | ok x =>
      simp only [ihRight]
      cases right.evaluate with
      | error place => simp [Nat.add_assoc]
      | ok y =>
        simp only [run_operation]
        split
        · simp [Nat.add_assoc]
        · simp [Formula.postOrder, Nat.add_assoc]

/-- The value of a postfix order is the value of its formula. -/
theorem evaluate_postOrder (formula : Formula) :
    evaluate formula.postOrder = formula.evaluate.mapError RunFault.divisionByZero := by
  have ran := run_postOrder formula [] 0 []
  rw [List.append_nil] at ran
  rw [evaluate, Stack.empty, ran]
  cases formula.evaluate with
  | error place => simp [Except.mapError]
  | ok x => rfl

end Reckon.Postfix
