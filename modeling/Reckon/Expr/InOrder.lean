/- Reckon.Expr.InOrder — the tokens of a tree in reading order

Walking a tree from left to right gives back the tokens that it was read from:
a binary node its left side, its operation and its right side, a group its
contents between parentheses, a literal one value.  Whatever is not computed
stops the walk with a fault at that node; an operator is looked at before
either of its sides.

The walk keeps its own list of what is left to do, so a tree may be as deep as
it likes.
-/
import Reckon.Expr.Basic

namespace Reckon.Expr
set_option autoImplicit false

/-- The value of a literal.  An integer must fit 64 bits and a real must be
finite. -/
def literalValue (form : NumberForm) (text : String) (position : Nat) :
    Except SourceFault Float :=
  match form with
  | .integer =>
    match Number.readInteger? text with
    | some n => .ok (Number.ofInteger n)
    | none => .error (.literalOutOfRange text position)
  | .real =>
    match Number.read? text with
    | some x => .ok x
    | none => .error (.literalOutOfRange text position)
  | .other => .error (.notDecimal text position)

/-- What is left to do on a walk. -/
inductive Task where
  | visit (tree : Expr)
  | emit (token : Token)

/-- The work in a task: visiting a tree breaks into tasks of less work. -/
def Task.work : Task → Nat
  | visit tree => 2 * tree.size
  | emit _ => 1

/-- The work in all of a list of tasks. -/
def Task.totalWork : List Task → Nat
  | [] => 0
  | task :: tasks => task.work + totalWork tasks

/-- The fault of a construct that is not computed. -/
def refuse (construct : String) (written : Symbol) (position : Nat) : SourceFault :=
  .unsupported (construct ++ " '" ++ String.ofList written.chars ++ "'") position

/-- Does the tasks in order; `emitted` holds the tokens so far, latest first. -/
def walk (emitted : List Token) : List Task → Except SourceFault (List Token)
  | [] => .ok emitted.reverse
  | .emit token :: tasks => walk (token :: emitted) tasks
  | .visit (.literal form text position) :: tasks =>
    match literalValue form text position with
    | .error fault => .error fault
    | .ok x => walk (.value x :: emitted) tasks
  | .visit (.binary left op right position) :: tasks =>
    match op.operation? with
    | none => .error (refuse "operator" op.symbol position)
    | some operation =>
        walk emitted (.visit left :: .emit (.operation operation) :: .visit right :: tasks)
  | .visit (.group inner _) :: tasks =>
      walk (.leftParen :: emitted) (.visit inner :: .emit .rightParen :: tasks)
  | .visit (.signed op _ position) :: _ => .error (refuse "unary operator" op.symbol position)
  | .visit (.name text position) :: _ =>
      .error (.unsupported ("identifier '" ++ text ++ "'") position)
  | .visit (.call callee position) :: _ =>
      .error (.unsupported ("call to '" ++ callee ++ "'") position)
termination_by tasks => Task.totalWork tasks
decreasing_by
  all_goals simp only [Task.totalWork, Task.work, size]
  all_goals omega

/-- The tokens of a tree in reading order. -/
def inOrder (tree : Expr) : Except SourceFault (List Token) := walk [] [.visit tree]

end Reckon.Expr
