/- Reckon.Fault.Kind — the four kinds of fault

Whatever goes wrong between a text and its value is of one of four kinds.
Only the kind, with the finished message, crosses a connection; on the wire it
is one byte, and `ofCode?` accepts exactly the bytes that `code` gives.
-/

namespace Reckon.Fault
set_option autoImplicit false

/-- What a fault says about the input. -/
inductive Kind where
  /-- The text is not an expression. -/
  | invalidExpression
  /-- The text is an expression with a part that is not computed. -/
  | unknownLiteral
  /-- A postfix text holds a word that is no token. -/
  | unknownToken
  /-- A postfix sequence has no value. -/
  | invalidPostfix
  deriving DecidableEq, Repr

namespace Kind

/-- The words that open every message of this kind. -/
def text : Kind → String
  | invalidExpression => "Invalid expression"
  | unknownLiteral => "Unknown literal"
  | unknownToken => "Unknown token"
  | invalidPostfix => "Invalid RPN"

/-- The byte for this kind on the wire. -/
def code : Kind → UInt8
  | invalidExpression => 1
  | unknownLiteral => 2
  | unknownToken => 3
  | invalidPostfix => 4

/-- The kind that a byte stands for. -/
def ofCode? (code : UInt8) : Option Kind :=
  match code.toNat with
  | 1 => some invalidExpression
  | 2 => some unknownLiteral
  | 3 => some unknownToken
  | 4 => some invalidPostfix
  | _ => none

@[simp] theorem ofCode?_code (kind : Kind) : ofCode? kind.code = some kind := by
  cases kind <;> rfl

/-- A byte stands for at most one kind, and is that kind's own. -/
theorem code_of_ofCode? {code : UInt8} {kind : Kind} (known : ofCode? code = some kind) :
    kind.code = code := by
  unfold ofCode? at known
  split at known <;> cases known <;> exact UInt8.toNat_inj.mp (Eq.symm ‹_›)

end Kind
end Reckon.Fault
