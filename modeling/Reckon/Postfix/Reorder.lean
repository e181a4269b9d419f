/- Reckon.Postfix.Reorder — from reading order to postfix order

One pass over the tokens.  Values go straight to the output; an operation
waits on a stack until its right side is complete, which is when an operation
that does not bind tighter comes, or a closing parenthesis, or the end.  An
opening parenthesis waits too and shuts off what lies below it, until the
closing one takes it away.

Every sequence is reordered, also one that no text is read as.  A closing
parenthesis without an opening one only empties the stack; an opening one
without a closing one ends up in the output.
-/
import Reckon.Stack
import Reckon.Token

namespace Reckon.Postfix
set_option autoImplicit false

/-- The state between two tokens: the output so far, latest first, and what
waits. -/
structure Reordering where
  output : List Token
  waiting : Stack Token

namespace Reordering

/-- Nothing read yet. -/
def start : Reordering := ⟨[], .empty⟩

/-- Puts a token out. -/
def put (state : Reordering) (token : Token) : Reordering :=
  { state with output := token :: state.output }

/-- Lets a token wait. -/
def hold (state : Reordering) (token : Token) : Reordering :=
  { state with waiting := state.waiting.push token }

/-- Puts out, from the top, what waits and `leaves`, up to the first that
stays. -/
def release (state : Reordering) (leaves : Token → Bool) : Reordering :=
  let (released, waiting) := state.waiting.popWhile leaves
  ⟨released.reverse ++ state.output, waiting⟩

/-- Takes the top of what waits away, if there is anything. -/
def discard (state : Reordering) : Reordering :=
  { state with waiting := ⟨state.waiting.items.drop 1⟩ }

/-- Reads one token. -/
def step (state : Reordering) (token : Token) : Reordering :=
  match token with
  | .value _ => state.put token
  | .operation op =>
      (state.release fun top =>
        if op.isMultiplicative then top.isMultiplicative else top.isOperation).hold token
  | .leftParen => state.hold token
  | .rightParen => (state.release fun top => !top.isLeftParen).discard

/-- The output once no token is left to read. -/
def finish (state : Reordering) : List Token :=
  state.output.reverse ++ state.waiting.items

end Reordering

/-- A sequence in reading order, put into postfix order. -/
def reorder (tokens : List Token) : List Token :=
  (tokens.foldl Reordering.step .start).finish

end Reckon.Postfix
