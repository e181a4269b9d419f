/- Reckon.Proofs.Formula.Assemble — a postfix sequence spells one formula

Postfix order needs no groups.  Read from left to right, every value is one more
formula and every operation joins the last two that are complete (`assemble`);
what a formula's postfix order comes to is the formula itself, without its
groups.  So no sequence is the postfix order of two formulas that differ in more
than groups (`ungroup_eq_of_postOrder_eq`).

The stack of an evaluation holds the values of those formulas: at every moment
the tokens so far are the postfix orders of formulas, one behind the other,
whose values are on the stack (`Spells`).  A sequence that leaves one value is
therefore the postfix order of one formula (`evaluate_eq_ok_iff_postOrder`).
-/
import Reckon.Proofs.Formula.Evaluate

namespace Reckon.Formula
set_option autoImplicit false

/-! ## Groups -/

/-- The formula without its groups. -/
def ungroup : Formula → Formula
  | value x => value x
  | group inner => inner.ungroup
  | node left op right => node left.ungroup op right.ungroup

/-- Nothing but values and operations. -/
def Groupless : Formula → Prop
  | value _ => True
  | group _ => False
  | node left _ right => left.Groupless ∧ right.Groupless

theorem ungroup_of_groupless {formula : Formula} (groupless : formula.Groupless) :
    formula.ungroup = formula := by
  induction formula with
  | value x => rfl
  | group inner _ => exact groupless.elim
  | node left op right ihLeft ihRight => rw [ungroup, ihLeft groupless.1, ihRight groupless.2]

/-! ## Unique spelling -/

/-- One token behind the complete formulas `parts`, the last of them first. -/
def assemble : List Formula → Token → Option (List Formula)
  | parts, .value x => some (value x :: parts)
  | right :: left :: parts, .operation op => some (node left op right :: parts)
  | _, _ => none

/-- A formula's postfix order is put together to the formula without its groups,
whatever was complete before. -/
theorem foldlM_assemble_postOrder (formula : Formula) (parts : List Formula) :
    formula.postOrder.foldlM assemble parts = some (formula.ungroup :: parts) := by
  induction formula generalizing parts with
  | value x => rfl
  | group inner ih => exact ih parts
  | node left op right ihLeft ihRight =>
    rw [postOrder, List.foldlM_append, ihLeft, Option.bind_eq_bind, Option.bind_some,
      List.foldlM_append, ihRight]
    rfl

/-- Formulas with one postfix order differ in their groups only. -/
theorem ungroup_eq_of_postOrder_eq {formula formula' : Formula}
    (same : formula.postOrder = formula'.postOrder) : formula.ungroup = formula'.ungroup := by
  have whole := foldlM_assemble_postOrder formula []
  rw [same, foldlM_assemble_postOrder] at whole
  simpa using whole.symm

end Reckon.Formula

namespace Reckon.Postfix
set_option autoImplicit false

/-! ## The stack of an evaluation -/

/-- The tokens are the postfix orders of formulas without groups, and the values
are those of the formulas, the last of them first. -/
inductive Spells : List Token → List Float → Prop where
  | none : Spells [] []
  | more {tokens : List Token} {values : List Float} {formula : Formula} {x : Float}
      (before : Spells tokens values) (groupless : formula.Groupless)
      (evaluated : formula.evaluate = .ok x) :
      Spells (tokens ++ formula.postOrder) (x :: values)

/-- An operation joins the last two formulas. -/
theorem Spells.operation {tokens : List Token} {values : List Float} {left right : Float}
    {op : Operation} (spells : Spells tokens (right :: left :: values))
    (defined : ¬(op = .div ∧ Number.IsZero right)) :
    Spells (tokens ++ [.operation op]) (op.compute left right :: values) := by
  cases spells with
  | more before rightGroupless rightEvaluated =>
    rename_i rightSide
    cases before with
    | more before leftGroupless leftEvaluated =>
      rename_i leftSide
      have joined : (Formula.node leftSide op rightSide).evaluate =
          .ok (op.compute left right) := by
        simp only [Formula.evaluate, leftEvaluated, rightEvaluated, if_neg defined]
      have groupless : (Formula.node leftSide op rightSide).Groupless :=
        ⟨leftGroupless, rightGroupless⟩
      have extended := before.more groupless joined
      simpa [Formula.postOrder] using extended

/-- One token further. -/
theorem Spells.step {before : List Token} {values : List Float} {after : Stack Float}
    {index : Nat} {token : Token} (spells : Spells before values)
    (ran : Postfix.step ⟨values⟩ index token = .ok after) :
    Spells (before ++ [token]) after.items := by
  cases token with
  | value x =>
    cases ran
    have groupless : (Formula.value x).Groupless := trivial
    exact spells.more groupless rfl
  | operation op =>
    match values with
    | [] => cases ran
    | [_] => cases ran
    | right :: left :: values =>
      rw [step_operation] at ran
      split at ran
      case isTrue zero => cases ran
      case isFalse defined =>
        cases ran
        exact spells.operation defined
  | leftParen => cases ran
  | rightParen => cases ran

/-- The whole evaluation. -/
theorem Spells.run {before tokens : List Token} {values : List Float} {after : Stack Float}
    {index : Nat} (spells : Spells before values)
    (ran : Postfix.run ⟨values⟩ index tokens = .ok after) :
    Spells (before ++ tokens) after.items := by
  induction tokens generalizing before values index with
  | nil =>
    cases ran
    simpa using spells
  | cons token tokens ih =>
    rw [run_cons] at ran
    split at ran
    · cases ran
    · rename_i next stepped
      simpa using ih (spells.step stepped) ran

/-! ## Values -/

theorem run_of_evaluate {tokens : List Token} {x : Float} (evaluated : evaluate tokens = .ok x) :
    run .empty 0 tokens = .ok ⟨[x]⟩ := by
  unfold evaluate at evaluated
  split at evaluated
  · cases evaluated
  · rename_i ran
    cases evaluated
    exact ran
  · cases evaluated

/-- **Which sequences have a value.**  A token sequence has a value if and only if it is the
postfix order of a formula without groups that has this value, and a sequence is the postfix
order of at most one formula without groups. -/
theorem evaluate_eq_ok_iff_postOrder (tokens : List Token) (x : Float) :
    (evaluate tokens = .ok x ↔
      ∃ formula : Formula, formula.Groupless ∧ formula.postOrder = tokens ∧
        formula.evaluate = .ok x) ∧
    ∀ formula formula' : Formula, formula.Groupless → formula'.Groupless →
      formula.postOrder = tokens → formula'.postOrder = tokens → formula = formula' := by
  refine ⟨⟨fun evaluated => ?_, ?_⟩, ?_⟩
  · have spells : Spells ([] ++ tokens) [x] := Spells.none.run (run_of_evaluate evaluated)
    generalize whole : [] ++ tokens = sequence at spells
    cases spells with
    | more before groupless value =>
      cases before
      exact ⟨_, groupless, by simpa using whole.symm, value⟩
  · rintro ⟨formula, -, rfl, value⟩
    rw [evaluate_postOrder, value]
    rfl
  · intro formula formula' groupless groupless' spelled spelled'
    have same := Formula.ungroup_eq_of_postOrder_eq (spelled.trans spelled'.symm)
    rwa [Formula.ungroup_of_groupless groupless, Formula.ungroup_of_groupless groupless'] at same

/-- The right side of an operation is the formula that is complete last. -/
theorem evaluate_six_over_difference :
    let tokens : List Token :=
      [.value 6, .value 1, .value 3, .operation .sub, .operation .div]
    let quotient : Formula := .node (.value 6) .div (.node (.value 1) .sub (.value 3))
    quotient.Groupless ∧ quotient.postOrder = tokens ∧ evaluate tokens = .ok (6 / (1 - 3)) ∧
      ∃ formula : Formula, formula.Groupless ∧ formula.postOrder = tokens ∧
        formula.evaluate = .ok (6 / (1 - 3)) ∧ formula = quotient := by
  intro tokens quotient
  have defined : ¬Number.IsZero (1 - 3) := by decide +kernel
  have value : quotient.evaluate = .ok (6 / (1 - 3)) := by
    simp [quotient, Formula.evaluate, Operation.compute, defined]
  have groupless : quotient.Groupless := ⟨trivial, trivial, trivial⟩
  obtain ⟨hasValue, unique⟩ := evaluate_eq_ok_iff_postOrder tokens (6 / (1 - 3))
  have evaluated : evaluate tokens = .ok (6 / (1 - 3)) :=
    hasValue.mpr ⟨quotient, groupless, rfl, value⟩
  obtain ⟨formula, groupless', spelled, value'⟩ := hasValue.mp evaluated
  exact ⟨groupless, rfl, evaluated, formula, groupless', spelled, value',
    unique formula quotient groupless' groupless spelled rfl⟩

end Reckon.Postfix
