/- Reckon.Fault.Source — what is wrong with a source text

A source fault names its cause and, where there is one, the byte offset in the
text at which it shows.  Faults of form come from reading the text as an
expression; the next three from an expression that asks for something that is
not computed; the last from a word of a postfix text.
-/
import Reckon.Fault.Kind

namespace Reckon
set_option autoImplicit false

/-- Why a text was refused. -/
inductive SourceFault where
  /-- No lexeme starts here. -/
  | strayCharacter (text : String) (position : Nat)
  /-- A lexeme stands where the grammar has no place for it. -/
  | unexpectedLexeme (found : String) (position : Nat)
  /-- The text ends where an operand or more of an argument list is due. -/
  | endOfText
  /-- The text ends inside the group opened here. -/
  | unclosedGroup (position : Nat)
  /-- The expression is complete, but the text goes on. -/
  | trailingLexeme (found : String) (position : Nat)
  /-- This bracket or sign is nested one level too deep. -/
  | nestingTooDeep (position : Nat)
  /-- A construct of the grammar that is not computed. -/
  | unsupported (construct : String) (position : Nat)
  /-- A decimal literal without a finite value. -/
  | literalOutOfRange (literal : String) (position : Nat)
  /-- A number-like word that is no decimal literal. -/
  | notDecimal (literal : String) (position : Nat)
  /-- A word that is neither an operator, a parenthesis nor a number. -/
  | unknownToken (word : String)
  deriving DecidableEq, Repr

namespace SourceFault

/-- The kind of a source fault. -/
def kind : SourceFault → Fault.Kind
  | strayCharacter .. | unexpectedLexeme .. | endOfText | unclosedGroup .. | trailingLexeme ..
  | nestingTooDeep .. => .invalidExpression
  | unsupported .. | literalOutOfRange .. | notDecimal .. => .unknownLiteral
  | unknownToken .. => .unknownToken

/-- The offset at which a source fault shows. -/
def position? : SourceFault → Option Nat
  | strayCharacter _ position | unexpectedLexeme _ position | unclosedGroup position
  | trailingLexeme _ position | nestingTooDeep position | unsupported _ position
  | literalOutOfRange _ position | notDecimal _ position => some position
  | endOfText | unknownToken _ => none

/-- The start of a message that tells where a fault of this kind is. -/
def located (kind : Fault.Kind) (position : Nat) : String :=
  kind.text ++ " at position " ++ position.repr ++ ": "

/-- The message of a source fault. -/
def message (fault : SourceFault) : String :=
  match fault with
  | strayCharacter text position =>
      located fault.kind position ++ "Unexpected character '" ++ text ++ "'."
  | unexpectedLexeme found position =>
      located fault.kind position ++ "Unexpected token: " ++ found ++ "."
  | endOfText => fault.kind.text ++ ": Unexpected end of input."
  | unclosedGroup position =>
      fault.kind.text ++ ": Expected closing parenthesis ')' for '(' at position " ++
        position.repr ++ " but none found."
  | trailingLexeme found position =>
      located fault.kind position ++ "Extra tokens after expression, starting with " ++
        found ++ "."
  | nestingTooDeep position =>
      located fault.kind position ++ "Expression is nested too deeply."
  | unsupported construct position =>
      located fault.kind position ++ construct ++ " is not supported."
  | literalOutOfRange literal position =>
      located fault.kind position ++ "'" ++ literal ++ "' cannot be represented as a number."
  | notDecimal literal position =>
      located fault.kind position ++ "'" ++ literal ++ "' is not a decimal number."
  | unknownToken word => fault.kind.text ++ ": '" ++ word ++ "'."

end SourceFault
end Reckon
