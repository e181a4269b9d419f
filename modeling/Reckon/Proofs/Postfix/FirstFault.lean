/- Reckon.Proofs.Postfix.FirstFault — where an evaluation stops

As long as nothing is wrong, the stack of an evaluation holds as many values as
the tokens so far have values more than operations (`height`), so what can be
wrong with a token is told from the tokens before it (`FaultAt`).  The evaluation
stops at the first token with which something is wrong, whatever follows, and
comes to the end if there is none; then only the number of values that are left
can be wrong (`evaluate_stops_at_first_fault`).

`OneByOne` is the evaluation with every operand taken off the stack on its own.
The two agree, so no operand is ever taken off an empty stack.
-/
import Reckon.Proofs.Formula.Evaluate

namespace Reckon
set_option autoImplicit false

/-- Whether the token is a value. -/
def Token.isValue : Token → Bool
  | .value _ => true
  | _ => false

namespace Postfix

/-! ## Height -/

/-- How many values more than operations there are. -/
def height (tokens : List Token) : Int :=
  (tokens.countP Token.isValue : Int) - tokens.countP Token.isOperation

theorem height_append (before after : List Token) :
    height (before ++ after) = height before + height after := by
  simp only [height, List.countP_append]
  omega

/-- A stack holds the operands of an operation, or fewer than two values. -/
theorem few_or_operands (values : Stack Float) :
    values.size < 2 ∨ ∃ right left others, values = ⟨right :: left :: others⟩ := by
  rcases values with ⟨_ | ⟨right, _ | ⟨left, others⟩⟩⟩
  · exact .inl Nat.two_pos
  · exact .inl Nat.one_lt_two
  · exact .inr ⟨right, left, others, rfl⟩

theorem step_operation_of_few {values : Stack Float} (few : values.size < 2) (op : Operation)
    (index : Nat) :
    step values index (.operation op) = .error (.missingOperands (.operation op) index) := by
  rcases values with ⟨_ | ⟨right, _ | ⟨left, others⟩⟩⟩
  · rfl
  · rfl
  · simp only [Stack.size, List.length_cons] at few
    omega

/-- A token changes the number of values on the stack as it changes the height. -/
theorem size_step {values after : Stack Float} {index : Nat} {token : Token}
    (ran : step values index token = .ok after) :
    (after.size : Int) = values.size + height [token] := by
  cases token with
  | value x =>
    cases ran
    rfl
  | operation op =>
    rcases few_or_operands values with few | ⟨right, left, others, rfl⟩
    · rw [step_operation_of_few few] at ran
      cases ran
    · rw [step_operation] at ran
      split at ran
      · cases ran
      · cases ran
        simp [Stack.size, height, Token.isValue, Token.isOperation]
  | leftParen => cases ran
  | rightParen => cases ran

/-! ## Faults -/

/-- What is wrong with the `index`-th token when the evaluation comes to it. -/
inductive FaultAt (tokens : List Token) (index : Nat) : RunFault → Prop where
  | parenthesis {token : Token} (stands : tokens[index]? = some token)
      (paren : token = .leftParen ∨ token = .rightParen) :
      FaultAt tokens index (.unexpectedToken token index)
  | operands {op : Operation} (stands : tokens[index]? = some (.operation op))
      (few : height (tokens.take index) < 2) :
      FaultAt tokens index (.missingOperands (.operation op) index)
  | zero {right left : Float} {others : List Float}
      (stands : tokens[index]? = some (.operation .div))
      (reached : run .empty 0 (tokens.take index) = .ok ⟨right :: left :: others⟩)
      (isZero : Number.IsZero right) :
      FaultAt tokens index (.divisionByZero index)

theorem FaultAt.lt_length {tokens : List Token} {index : Nat} {fault : RunFault}
    (wrong : FaultAt tokens index fault) : index < tokens.length := by
  cases wrong with
  | parenthesis stands _ => exact (List.getElem?_eq_some_iff.mp stands).1
  | operands stands _ => exact (List.getElem?_eq_some_iff.mp stands).1
  | zero stands _ _ => exact (List.getElem?_eq_some_iff.mp stands).1

/-- With a value nothing can be wrong. -/
theorem not_faultAt_value {tokens : List Token} {index : Nat} {x : Float}
    (stands : tokens[index]? = some (.value x)) (fault : RunFault) :
    ¬FaultAt tokens index fault := by
  intro wrong
  cases wrong with
  | parenthesis stands' paren => rcases paren with rfl | rfl <;> cases stands.symm.trans stands'
  | operands stands' _ => cases stands.symm.trans stands'
  | zero stands' _ _ => cases stands.symm.trans stands'

/-- Nothing is wrong with the tokens before the `index`-th. -/
def SoundBefore (tokens : List Token) (index : Nat) : Prop :=
  ∀ earlier < index, ∀ fault, ¬FaultAt tokens earlier fault

section Step
variable {tokens : List Token} {index : Nat} {token : Token} {values : Stack Float}

/-- A token that the evaluation comes to is where it stops exactly if something is wrong with
the token. -/
theorem step_eq_error_iff (stands : tokens[index]? = some token)
    (reached : run .empty 0 (tokens.take index) = .ok values)
    (size : (values.size : Int) = height (tokens.take index)) (fault : RunFault) :
    step values index token = .error fault ↔ FaultAt tokens index fault := by
  constructor
  · intro failed
    cases token with
    | value x => cases failed
    | leftParen =>
      cases failed
      exact .parenthesis stands (.inl rfl)
    | rightParen =>
      cases failed
      exact .parenthesis stands (.inr rfl)
    | operation op =>
      rcases few_or_operands values with few | ⟨right, left, others, rfl⟩
      · rw [step_operation_of_few few] at failed
        cases failed
        exact .operands stands (by omega)
      · rw [step_operation] at failed
        split at failed
        case isTrue zero =>
          cases failed
          obtain ⟨rfl, isZero⟩ := zero
          exact .zero stands reached isZero
        case isFalse _ => cases failed
  · intro wrong
    cases wrong with
    | parenthesis stands' paren =>
      obtain rfl := Option.some.inj (stands.symm.trans stands')
      rcases paren with rfl | rfl <;> rfl
    | @operands op stands' few =>
      obtain rfl := Option.some.inj (stands.symm.trans stands')
      exact step_operation_of_few (by omega) op index
    | zero stands' reached' isZero =>
      obtain rfl := Option.some.inj (stands.symm.trans stands')
      cases reached.symm.trans reached'
      rw [step_operation, if_pos ⟨rfl, isZero⟩]

end Step

/-! ## The run -/

/-- The evaluation comes to every token with nothing wrong before it, with as many values as
the tokens so far have more than operations. -/
theorem run_take_of_soundBefore {tokens : List Token} {index : Nat} (le : index ≤ tokens.length)
    (sound : SoundBefore tokens index) :
    ∃ values, run .empty 0 (tokens.take index) = .ok values ∧
      (values.size : Int) = height (tokens.take index) := by
  induction index with
  | zero => exact ⟨.empty, rfl, rfl⟩
  | succ index ih =>
    obtain ⟨values, reached, size⟩ :=
      ih (Nat.le_of_succ_le le) fun earlier before => sound earlier (Nat.lt_succ_of_lt before)
    have stands : tokens[index]? = some tokens[index] := List.getElem?_eq_getElem le
    have further : run .empty 0 (tokens.take (index + 1)) = step values index tokens[index] := by
      rw [List.take_succ_eq_append_getElem le, run_append, reached]
      simp only [List.length_take_of_le (Nat.le_of_succ_le le), Nat.zero_add, run]
      cases step values index tokens[index] <;> rfl
    cases stepped : step values index tokens[index] with
    | error fault =>
      have wrong := (step_eq_error_iff stands reached size fault).mp stepped
      exact absurd wrong (sound index (Nat.lt_succ_self _) fault)
    | ok after =>
      refine ⟨after, further.trans stepped, ?_⟩
      rw [size_step stepped, size, List.take_succ_eq_append_getElem le, height_append]

/-- Nothing behind the first token with which something is wrong is ever looked at. -/
theorem evaluate_eq_error_of_faultAt {tokens : List Token} {index : Nat} {fault : RunFault}
    (wrong : FaultAt tokens index fault) (sound : SoundBefore tokens index)
    (more : List Token) : evaluate (tokens ++ more) = .error fault := by
  have bound := wrong.lt_length
  obtain ⟨values, reached, size⟩ := run_take_of_soundBefore (Nat.le_of_lt bound) sound
  have stands : tokens[index]? = some tokens[index] := List.getElem?_eq_getElem bound
  have stopped := (step_eq_error_iff stands reached size fault).mpr wrong
  have parts : tokens ++ more =
      tokens.take index ++ tokens[index] :: (tokens.drop (index + 1) ++ more) := by
    rw [← List.cons_append, ← List.drop_eq_getElem_cons bound, ← List.append_assoc,
      List.take_append_drop]
  have ran : run .empty 0 (tokens ++ more) = .error fault := by
    rw [parts, run_append, reached]
    simp only [List.length_take_of_le (Nat.le_of_lt bound), Nat.zero_add, run_cons, stopped]
  rw [evaluate, ran]

/-- With nothing wrong anywhere it is only a matter of the height. -/
theorem evaluate_of_sound {tokens : List Token} (sound : SoundBefore tokens tokens.length) :
    if height tokens = 1 then ∃ x, evaluate tokens = .ok x
    else ∃ count : Nat, (count : Int) = height tokens ∧
      evaluate tokens = .error (.residualOperands count) := by
  obtain ⟨values, ran, size⟩ := run_take_of_soundBefore (Nat.le_refl _) sound
  rw [List.take_length] at ran size
  rw [evaluate, ran, ← size]
  rcases values with ⟨_ | ⟨x, _ | ⟨left, others⟩⟩⟩
  · exact ⟨0, rfl, rfl⟩
  · exact ⟨x, rfl⟩
  · rw [if_neg (by simp only [Stack.size, List.length_cons]; omega)]
    exact ⟨_, rfl, rfl⟩

/-! ## One operand at a time -/

namespace OneByOne

/-- Runs the `index`-th token, the right side taken off the stack before the left one. -/
def step (values : Stack Float) (index : Nat) (token : Token) :
    Except StackFault (Except RunFault (Stack Float)) :=
  match token with
  | .value x => .ok (.ok (values.push x))
  | .operation op =>
    if values.size < 2 then .ok (.error (.missingOperands token index))
    else do
      let (right, values) ← values.pop
      let (left, values) ← values.pop
      return (apply op left right index).map values.push
  | .leftParen | .rightParen => .ok (.error (.unexpectedToken token index))

/-- Runs the tokens from the `index`-th on. -/
def run (values : Stack Float) (index : Nat) :
    List Token → Except StackFault (Except RunFault (Stack Float))
  | [] => .ok (.ok values)
  | token :: tokens => do
    match ← step values index token with
    | .error fault => return .error fault
    | .ok values => run values (index + 1) tokens

/-- The value of a postfix sequence, which is taken off the stack at the end. -/
def evaluate (tokens : List Token) : Except StackFault (Except RunFault Float) := do
  match ← run .empty 0 tokens with
  | .error fault => return .error fault
  | .ok values =>
    if values.size = 1 then do
      let (x, _) ← values.pop
      return .ok x
    else return .error (.residualOperands values.size)

theorem step_eq (values : Stack Float) (index : Nat) (token : Token) :
    step values index token = .ok (Postfix.step values index token) := by
  cases token with
  | value x => rfl
  | leftParen => rfl
  | rightParen => rfl
  | operation op =>
    rcases few_or_operands values with few | ⟨right, left, others, rfl⟩
    · rw [step, if_pos few, step_operation_of_few few]
    · have taken : step ⟨right :: left :: others⟩ index (.operation op) =
          .ok ((apply op left right index).map (Stack.push ⟨others⟩)) := by
        rw [step, if_neg (by simp only [Stack.size, List.length_cons]; omega)]
        rfl
      rw [taken, Postfix.step]
      cases apply op left right index <;> rfl

theorem run_eq (values : Stack Float) (index : Nat) (tokens : List Token) :
    run values index tokens = .ok (Postfix.run values index tokens) := by
  induction tokens generalizing values index with
  | nil => rfl
  | cons token tokens ih =>
    rw [run, step_eq, run_cons]
    cases Postfix.step values index token with
    | error fault => rfl
    | ok next => exact ih next (index + 1)

/-- No operand is taken off an empty stack, and the value is the same. -/
theorem evaluate_eq (tokens : List Token) : evaluate tokens = .ok (Postfix.evaluate tokens) := by
  rw [evaluate, run_eq, Postfix.evaluate]
  cases Postfix.run .empty 0 tokens with
  | error fault => rfl
  | ok values => rcases values with ⟨_ | ⟨x, _ | ⟨left, others⟩⟩⟩ <;> rfl

end OneByOne

/-! ## The first fault -/

/-- **Where an evaluation stops.**  The evaluation stops at the first token with which something
is wrong, with the fault of that token, whatever follows.  With nothing wrong anywhere it has a
value if the height of the sequence is one, and otherwise fails with the height.  Up to there the
stack holds as many values as the height says, and no operand is taken off an empty stack. -/
theorem evaluate_stops_at_first_fault (tokens : List Token) :
    (∀ index fault, FaultAt tokens index fault → SoundBefore tokens index →
      ∀ more, evaluate (tokens ++ more) = .error fault) ∧
    (SoundBefore tokens tokens.length →
      if height tokens = 1 then ∃ x, evaluate tokens = .ok x
      else ∃ count : Nat, (count : Int) = height tokens ∧
        evaluate tokens = .error (.residualOperands count)) ∧
    (∀ index ≤ tokens.length, SoundBefore tokens index →
      ∃ values, run .empty 0 (tokens.take index) = .ok values ∧
        (values.size : Int) = height (tokens.take index)) ∧
    OneByOne.evaluate tokens = .ok (evaluate tokens) := by
  refine ⟨?_, evaluate_of_sound, ?_, OneByOne.evaluate_eq tokens⟩
  · intro index fault wrong sound more
    exact evaluate_eq_error_of_faultAt wrong sound more
  · intro index le sound
    exact run_take_of_soundBefore le sound

/-- A division by the negative zero comes before a parenthesis and before operands that are
missing; two values without an operation are one too many. -/
theorem evaluate_negative_zero_before_parenthesis :
    let tokens : List Token := [.value 1, .value (-0), .operation .div, .rightParen]
    let values : List Token := [.value 1, .value 2]
    (FaultAt tokens 2 (.divisionByZero 2) ∧ SoundBefore tokens 2 ∧
      evaluate (tokens ++ [.operation .add]) = .error (.divisionByZero 2) ∧
      ∃ stack, run .empty 0 (tokens.take 2) = .ok stack ∧
        (stack.size : Int) = height (tokens.take 2)) ∧
    SoundBefore values values.length ∧ height values = 2 ∧
      ∃ count : Nat, (count : Int) = height values ∧
        evaluate values = .error (.residualOperands count) := by
  intro tokens values
  have zero : Number.IsZero (-0) := by decide +kernel
  have wrong : FaultAt tokens 2 (.divisionByZero 2) := .zero rfl rfl zero
  have sound : SoundBefore tokens 2 := by
    intro earlier before
    interval_cases earlier <;> exact not_faultAt_value rfl
  have sound' : SoundBefore values values.length := by
    intro earlier before
    simp only [values, List.length_cons, List.length_nil] at before
    interval_cases earlier <;> exact not_faultAt_value rfl
  have stops := evaluate_stops_at_first_fault tokens
  have ends := (evaluate_stops_at_first_fault values).2.1 sound'
  rw [if_neg (by decide)] at ends
  exact ⟨⟨wrong, sound, stops.1 2 _ wrong sound _, stops.2.2.1 2 (by decide) sound⟩, sound', rfl,
    ends⟩

end Postfix
end Reckon
