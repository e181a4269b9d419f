/- Reckon.Postfix.Evaluate — the value of a postfix sequence

A value is pushed on a stack; an operation takes its right side and then its
left side off the stack and pushes the result.  The sequence has a value if
that leaves exactly one.  The evaluation stops at the first token at which it
cannot go on: a parenthesis, an operation with fewer than two values, or a
division whose divisor is a zero of either sign.
-/
import Reckon.Fault.Run
import Reckon.Stack

namespace Reckon.Postfix
set_option autoImplicit false

/-- The result of an operation; the token is the `index`-th of its sequence. -/
def apply (op : Operation) (left right : Float) (index : Nat) : Except RunFault Float :=
  match op with
  | .add => .ok (left + right)
  | .sub => .ok (left - right)
  | .mul => .ok (left * right)
  | .div => if right == 0.0 then .error (.divisionByZero index) else .ok (left / right)

/-- Runs the `index`-th token. -/
def step (values : Stack Float) (index : Nat) (token : Token) :
    Except RunFault (Stack Float) :=
  match token with
  | .value x => .ok (values.push x)
  | .operation op =>
    match values with
    | ⟨right :: left :: rest⟩ => do
        let x ← apply op left right index
        return Stack.push ⟨rest⟩ x
    | _ => .error (.missingOperands token index)
  | .leftParen | .rightParen => .error (.unexpectedToken token index)

/-- Runs the tokens from the `index`-th on. -/
def run (values : Stack Float) (index : Nat) : List Token → Except RunFault (Stack Float)
  | [] => .ok values
  | token :: tokens =>
    match step values index token with
    | .error fault => .error fault
    | .ok values => run values (index + 1) tokens

/-- The value of a postfix sequence. -/
def evaluate (tokens : List Token) : Except RunFault Float :=
  match run .empty 0 tokens with
  | .error fault => .error fault
  | .ok ⟨[x]⟩ => .ok x
  | .ok values => .error (.residualOperands values.size)

end Reckon.Postfix
