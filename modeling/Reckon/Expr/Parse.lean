/- Reckon.Expr.Parse — reading a tree off a lexeme list

The grammar, from the loosest level to the tightest, each binary level
grouping from the left:

    or              and ("||" and)*
    and             comparison ("&&" comparison)*
    comparison      additive (("==" | "!=" | "<" | "<=" | ">" | ">=") additive)*
    additive        multiplicative (("+" | "-" | "|") multiplicative)*
    multiplicative  exponent (("*" | "/" | "%" | "<<" | ">>" | "&" | "&^") exponent)*
    exponent        unary ("^" unary)*
    unary           ("-" | "+" | "!") unary | primary
    primary         number | "(" or ")" | name | name "(" (or ("," or)*)? ")"

A parser answers with what it read and with what is left, which is shorter
than what it was given, so every loop ends with the list.  Signs, groups and
argument lists may be nested `maxNesting` deep.  That depth is the only
recursion there is: the parser for one level of nesting is built from the
parser for the next one, and beyond the last there is none.
-/
import Reckon.Expr.Basic
import Reckon.Lexeme.Scan

namespace Reckon.Expr
set_option autoImplicit false

/-- A part of a lexeme list that is shorter than the whole. -/
abbrev Shorter (start : List Placed) : Type :=
  { rest : List Placed // rest.length < start.length }

/-- Reads something off the front of a lexeme list. -/
abbrev Parser (α : Type) : Type :=
  (input : List Placed) → Except SourceFault (α × Shorter input)

/-! ## Chains of one level -/

/-- Goes on from a complete operand, `tree`, as long as operators that
`accepts` follow. -/
def chainFrom (accepts : BinaryOp → Bool) (operand : Parser Expr) {start : List Placed}
    (tree : Expr) (input : Shorter start) : Except SourceFault (Expr × Shorter start) :=
  match input with
  | ⟨[], shorter⟩ => .ok (tree, ⟨[], shorter⟩)
  | ⟨placed :: rest, shorter⟩ =>
    match placed.lexeme.binary?.filter accepts with
    | none => .ok (tree, ⟨placed :: rest, shorter⟩)
    | some op =>
      match operand rest with
      | .error fault => .error fault
      | .ok (right, ⟨rest', shorter'⟩) =>
          chainFrom accepts operand (.binary tree op right placed.position)
            ⟨rest', Nat.lt_trans shorter' (Nat.lt_trans (Nat.lt_succ_self _) shorter)⟩
termination_by input.val.length
decreasing_by exact Nat.lt_trans shorter' (Nat.lt_succ_self _)

/-- An operand and whatever its level chains to it. -/
def chain (accepts : BinaryOp → Bool) (operand : Parser Expr) : Parser Expr := fun input =>
  match operand input with
  | .error fault => .error fault
  | .ok (tree, rest) => chainFrom accepts operand tree rest

/-- The binary levels below `height`, on top of `unary`. -/
def ladder (unary : Parser Expr) : (height : Nat) → Parser Expr
  | 0 => unary
  | level + 1 => chain (fun op => op.level == level) (ladder unary level)

/-- A whole expression, its unary parts read by `unary`. -/
def expression (unary : Parser Expr) : Parser Expr := ladder unary BinaryOp.levels

/-! ## Nesting -/

/-- The rest of an argument list, one argument due.  The arguments only have to
be well formed. -/
def skipArguments (argument : Parser Expr) {start : List Placed} (input : Shorter start) :
    Except SourceFault (Shorter start) :=
  match argument input.val with
  | .error fault => .error fault
  | .ok (_, ⟨[], _⟩) => .error .endOfText
  | .ok (_, ⟨placed :: rest, shorter⟩) =>
    have within : rest.length < input.val.length := Nat.lt_trans (Nat.lt_succ_self _) shorter
    if placed.lexeme = .symbol .comma then
      skipArguments argument ⟨rest, Nat.lt_trans within input.property⟩
    else if placed.lexeme = .symbol .rightParen then
      .ok ⟨rest, Nat.lt_trans within input.property⟩
    else
      .error (.unexpectedLexeme
        ("expected ',' or ')', found " ++ placed.lexeme.shown) placed.position)
termination_by input.val.length

/-- The rest of a call, behind the opening parenthesis at `opened`. -/
def callRest (deeper : Option (Parser Expr)) (opened : Nat) {start : List Placed}
    (input : Shorter start) : Except SourceFault (Shorter start) :=
  match deeper with
  | none => .error (.nestingTooDeep opened)
  | some unary =>
    match input with
    | ⟨⟨.symbol .rightParen, _⟩ :: rest, shorter⟩ =>
        .ok ⟨rest, Nat.lt_trans (Nat.lt_succ_self _) shorter⟩
    | input => skipArguments (expression unary) input

/-- The rest of a group, behind the opening parenthesis at `opened`. -/
def groupRest (deeper : Option (Parser Expr)) (opened : Nat) {start : List Placed}
    (input : Shorter start) : Except SourceFault (Expr × Shorter start) :=
  match deeper with
  | none => .error (.nestingTooDeep opened)
  | some unary =>
    match expression unary input.val with
    | .error fault => .error fault
    | .ok (_, ⟨[], _⟩) => .error (.unclosedGroup opened)
    | .ok (inner, ⟨placed :: rest, shorter⟩) =>
      if placed.lexeme = .symbol .rightParen then
        .ok (.group inner opened,
          ⟨rest, Nat.lt_trans (Nat.lt_trans (Nat.lt_succ_self _) shorter) input.property⟩)
      else .error (.unexpectedLexeme placed.lexeme.shown placed.position)

/-- The operand of a prefix operator at `position`. -/
def signedRest (deeper : Option (Parser Expr)) (op : PrefixOp) (position : Nat)
    {start : List Placed} (input : Shorter start) : Except SourceFault (Expr × Shorter start) :=
  match deeper with
  | none => .error (.nestingTooDeep position)
  | some unary =>
    match unary input.val with
    | .error fault => .error fault
    | .ok (operand, ⟨rest, shorter⟩) =>
        .ok (.signed op operand position, ⟨rest, Nat.lt_trans shorter input.property⟩)

/-- A unary expression, whose nested parts are read by `deeper`; no part may be
nested if there is none. -/
def unaryOver (deeper : Option (Parser Expr)) : Parser Expr
  | [] => .error .endOfText
  | ⟨lexeme, position⟩ :: rest =>
    match lexeme with
    | .number form text => .ok (.literal form text position, ⟨rest, Nat.lt_succ_self _⟩)
    | .name text =>
      match rest with
      | ⟨.symbol .leftParen, opened⟩ :: inside =>
        match callRest deeper opened
            ⟨inside, Nat.lt_trans (Nat.lt_succ_self _) (Nat.lt_succ_self _)⟩ with
        | .error fault => .error fault
        | .ok rest => .ok (.call text position, rest)
      | rest => .ok (.name text position, ⟨rest, Nat.lt_succ_self _⟩)
    | .symbol .leftParen => groupRest deeper position ⟨rest, Nat.lt_succ_self _⟩
    | .symbol written =>
      match PrefixOp.ofSymbol? written with
      | some op => signedRest deeper op position ⟨rest, Nat.lt_succ_self _⟩
      | none => .error (.unexpectedLexeme lexeme.shown position)
    | .blank => .error (.unexpectedLexeme lexeme.shown position)

/-- A unary expression whose parts are nested at most `room` deep. -/
def unary : (room : Nat) → Parser Expr
  | 0 => unaryOver none
  | room + 1 => unaryOver (some (unary room))

/-! ## Whole texts -/

/-- How deep signs, groups and argument lists may be nested in each other. -/
def maxNesting : Nat := 128

/-- The tree of a lexeme list that is exactly one expression. -/
def ofLexemes (lexemes : List Placed) : Except SourceFault Expr :=
  match expression (unary maxNesting) lexemes with
  | .error fault => .error fault
  | .ok (tree, ⟨[], _⟩) => .ok tree
  | .ok (_, ⟨placed :: _, _⟩) =>
      .error (.trailingLexeme placed.lexeme.shown placed.position)

/-- The tree of a text that is exactly one expression. -/
def parse (source : String) : Except SourceFault Expr := do
  let lexemes ← Lexeme.scan source
  ofLexemes lexemes

end Reckon.Expr
