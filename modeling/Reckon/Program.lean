/- Reckon.Program — compiled expressions

A program is a postfix sequence.  It can be compiled from an expression, read
from postfix text or taken from any tokens, unchecked; a sequence that means
nothing is found out when it is evaluated.  Its text is its tokens with single
spaces between them, and reading accepts any blanks there.
-/
import Reckon.Expr.InOrder
import Reckon.Expr.Parse
import Reckon.Postfix.Evaluate
import Reckon.Postfix.Reorder
import Reckon.Text.Blank

namespace Reckon
set_option autoImplicit false

/-- The tokens of an expression's text in reading order. -/
def readingOrder (source : String) : Except SourceFault (List Token) := do
  let tree ← Expr.parse source
  tree.inOrder

/-- A compiled expression. -/
structure Program where
  tokens : List Token

namespace Program

/-- The program without tokens. -/
def empty : Program := ⟨[]⟩

/-- Compiles an expression's text. -/
def compile (source : String) : Except SourceFault Program := do
  let tokens ← readingOrder source
  return ⟨Postfix.reorder tokens⟩

/-- The value of a program. -/
def evaluate (program : Program) : Except RunFault Float := Postfix.evaluate program.tokens

/-- The postfix text of a program. -/
def text (program : Program) : String := " ".intercalate (program.tokens.map Token.text)

/-- Reads postfix text. -/
def read (source : String) : Except SourceFault Program := do
  let tokens ← (Text.words source.toList).mapM fun word => Token.read (String.ofList word)
  return ⟨tokens⟩

/-- One program's tokens behind another's. -/
def append (first second : Program) : Program := ⟨first.tokens ++ second.tokens⟩

/-- A program's tokens, taken as reading order and reordered. -/
def reorder (program : Program) : Program := ⟨Postfix.reorder program.tokens⟩

/-- Programs are compared token by token. -/
instance : BEq Program := ⟨fun a b => a.tokens == b.tokens⟩

end Program

/-- The value of an expression's text. -/
def calculate (source : String) : Except CalcFault Float :=
  match Program.compile source with
  | .error fault => .error (.source fault)
  | .ok program =>
    match program.evaluate with
    | .error fault => .error (.run fault)
    | .ok x => .ok x

end Reckon
