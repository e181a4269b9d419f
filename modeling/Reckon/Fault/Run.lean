/- Reckon.Fault.Run — why a postfix sequence has no value

A run fault names the place in the sequence at which the evaluation stops, or
how many values are left when it comes to the end with any other number than
one.  Every run fault is of one kind.
-/
import Reckon.Token

namespace Reckon
set_option autoImplicit false

/-- Why a postfix sequence has no value. -/
inductive RunFault where
  /-- The operation here finds fewer than two values. -/
  | missingOperands (operation : Token) (index : Nat)
  /-- The division here has a zero divisor. -/
  | divisionByZero (index : Nat)
  /-- A token that has no place in postfix order. -/
  | unexpectedToken (token : Token) (index : Nat)
  /-- The sequence leaves this many values. -/
  | residualOperands (count : Nat)

namespace RunFault

/-- The kind of every run fault. -/
def kind (_ : RunFault) : Fault.Kind := .invalidPostfix

/-- The message of a run fault. -/
def message (fault : RunFault) : String :=
  fault.kind.text ++ ": " ++
  match fault with
  | missingOperands operation index =>
      "Operator '" ++ operation.text ++ "' at index " ++ index.repr ++ " needs two operands."
  | divisionByZero index => "Division by zero at index " ++ index.repr ++ "."
  | unexpectedToken token index =>
      "Unexpected token '" ++ token.text ++ "' at index " ++ index.repr ++ "."
  | residualOperands count =>
      "Expected exactly one value after evaluation, found " ++ count.repr ++ "."

end RunFault

/-- Why a text has no value: it was refused, or what it means has none. -/
inductive CalcFault where
  | source (fault : SourceFault)
  | run (fault : RunFault)

namespace CalcFault

/-- The kind of the fault within. -/
def kind : CalcFault → Fault.Kind
  | source fault => fault.kind
  | run fault => fault.kind

/-- The message of the fault within. -/
def message : CalcFault → String
  | source fault => fault.message
  | run fault => fault.message

end CalcFault
end Reckon
