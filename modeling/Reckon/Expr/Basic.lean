/- Reckon.Expr.Basic — expression trees

A tree says what was written, with groups as nodes of their own and a byte
offset at every node; its shape already carries precedence and associativity.
Most operators of the grammar have no operation behind them: they are in the
tree only to be refused by name.  The arguments of a call are not kept, since
no call is ever computed.
-/
import Reckon.Lexeme.Basic
import Reckon.Token

namespace Reckon
set_option autoImplicit false

/-! ## Operators -/

/-- Operators between two operands. -/
inductive BinaryOp where
  | add | sub | mul | div | mod | pow | bitAnd | bitOr | bitClear | shiftLeft | shiftRight
  | and | or | equal | notEqual | less | lessEqual | greater | greaterEqual
  deriving DecidableEq, Repr

namespace BinaryOp

/-- The binary operator that a symbol writes. -/
def ofSymbol? : Symbol → Option BinaryOp
  | .plus => some add
  | .minus => some sub
  | .star => some mul
  | .slash => some div
  | .percent => some mod
  | .caret => some pow
  | .ampersand => some bitAnd
  | .pipe => some bitOr
  | .ampersandCaret => some bitClear
  | .shiftLeft => some shiftLeft
  | .shiftRight => some shiftRight
  | .andAnd => some and
  | .orOr => some or
  | .equalEqual => some equal
  | .bangEqual => some notEqual
  | .less => some less
  | .lessEqual => some lessEqual
  | .greater => some greater
  | .greaterEqual => some greaterEqual
  | .bang | .leftParen | .rightParen | .comma => none

/-- The symbol that writes an operator. -/
def symbol : BinaryOp → Symbol
  | add => .plus
  | sub => .minus
  | mul => .star
  | div => .slash
  | mod => .percent
  | pow => .caret
  | bitAnd => .ampersand
  | bitOr => .pipe
  | bitClear => .ampersandCaret
  | shiftLeft => .shiftLeft
  | shiftRight => .shiftRight
  | and => .andAnd
  | or => .orOr
  | equal => .equalEqual
  | notEqual => .bangEqual
  | less => .less
  | lessEqual => .lessEqual
  | greater => .greater
  | greaterEqual => .greaterEqual

@[simp] theorem ofSymbol?_symbol (op : BinaryOp) : ofSymbol? op.symbol = some op := by
  cases op <;> rfl

theorem symbol_of_ofSymbol? {symbol : Symbol} {op : BinaryOp}
    (written : ofSymbol? symbol = some op) : op.symbol = symbol := by
  cases symbol <;> simp only [ofSymbol?, Option.some.injEq, reduceCtorEq] at written <;>
    subst written <;> rfl

/-- The level at which an operator binds.  Level zero binds tightest, and the
operators of one level group from the left. -/
def level : BinaryOp → Nat
  | pow => 0
  | mul | div | mod | shiftLeft | shiftRight | bitAnd | bitClear => 1
  | add | sub | bitOr => 2
  | equal | notEqual | less | lessEqual | greater | greaterEqual => 3
  | and => 4
  | or => 5

/-- How many levels there are. -/
def levels : Nat := 6

theorem level_lt (op : BinaryOp) : op.level < levels := by cases op <;> decide

/-- The operation behind an operator, for the four that have one. -/
def operation? : BinaryOp → Option Operation
  | add => some .add
  | sub => some .sub
  | mul => some .mul
  | div => some .div
  | _ => none

end BinaryOp

/-- Operators in front of one operand. -/
inductive PrefixOp where
  | negate | plus | not
  deriving DecidableEq, Repr

namespace PrefixOp

/-- The prefix operator that a symbol writes. -/
def ofSymbol? : Symbol → Option PrefixOp
  | .minus => some negate
  | .plus => some plus
  | .bang => some not
  | _ => none

/-- The symbol that writes an operator. -/
def symbol : PrefixOp → Symbol
  | negate => .minus
  | plus => .plus
  | not => .bang

end PrefixOp

/-! ## Trees -/

/-- An expression as written. -/
inductive Expr where
  | literal (form : NumberForm) (text : String) (position : Nat)
  | name (text : String) (position : Nat)
  | call (callee : String) (position : Nat)
  | group (inner : Expr) (position : Nat)
  | signed (op : PrefixOp) (operand : Expr) (position : Nat)
  | binary (left : Expr) (op : BinaryOp) (right : Expr) (position : Nat)
  deriving DecidableEq, Repr

namespace Expr

/-- The byte offset of a node: of an operator's symbol, of a group's opening
parenthesis, and of the first character otherwise. -/
def position : Expr → Nat
  | literal _ _ position | name _ position | call _ position | group _ position
  | signed _ _ position | binary _ _ _ position => position

/-- The number of nodes. -/
def size : Expr → Nat
  | literal .. | name .. | call .. => 1
  | group inner _ => inner.size + 1
  | signed _ operand _ => operand.size + 1
  | binary left _ right _ => left.size + right.size + 1

end Expr

/-! ## What operators lexemes write -/

namespace Lexeme

/-- The binary operator that a lexeme writes. -/
def binary? : Lexeme → Option BinaryOp
  | symbol written => BinaryOp.ofSymbol? written
  | _ => none

end Lexeme
end Reckon
