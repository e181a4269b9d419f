/- Reckon.Token — the units of both orders

One alphabet serves reading order and postfix order.  In reading order the
parentheses group; a postfix sequence that means anything has none.  A token's
text is its symbol or its number, and reading a text gives a token only where
the number is finite.
-/
import Reckon.Fault.Source
import Reckon.Number

namespace Reckon
set_option autoImplicit false

/-- The operations that are computed. -/
inductive Operation where
  | add | sub | mul | div
  deriving DecidableEq, Repr

namespace Operation

/-- The operation's symbol. -/
def symbol : Operation → String
  | add => "+"
  | sub => "-"
  | mul => "*"
  | div => "/"

/-- Whether the operation binds tighter than addition. -/
def isMultiplicative : Operation → Bool
  | mul | div => true
  | add | sub => false

end Operation

/-- A unit of a sequence in reading order or in postfix order. -/
inductive Token where
  | value (x : Float)
  | operation (op : Operation)
  | leftParen
  | rightParen

namespace Token

/-- Whether the token is one of the four operations. -/
def isOperation : Token → Bool
  | operation _ => true
  | _ => false

/-- Whether the token is a multiplication or a division. -/
def isMultiplicative : Token → Bool
  | operation op => op.isMultiplicative
  | _ => false

/-- Whether the token is an opening parenthesis. -/
def isLeftParen : Token → Bool
  | leftParen => true
  | _ => false

/-- Numbers are compared as numbers: the two zeros are equal, and what is not
a number differs from itself. -/
def beq : Token → Token → Bool
  | value x, value y => x == y
  | operation op, operation op' => op == op'
  | leftParen, leftParen => true
  | rightParen, rightParen => true
  | _, _ => false

instance : BEq Token := ⟨beq⟩

/-- A token's text. -/
def text : Token → String
  | value x => Number.text x
  | operation op => op.symbol
  | leftParen => "("
  | rightParen => ")"

/-- Reads a token. -/
def read (word : String) : Except SourceFault Token :=
  match word with
  | "+" => .ok (operation .add)
  | "-" => .ok (operation .sub)
  | "*" => .ok (operation .mul)
  | "/" => .ok (operation .div)
  | "(" => .ok leftParen
  | ")" => .ok rightParen
  | _ => match Number.read? word with
    | some x => .ok (value x)
    | none => .error (.unknownToken word)

end Token
end Reckon
