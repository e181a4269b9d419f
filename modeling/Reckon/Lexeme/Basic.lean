/- Reckon.Lexeme.Basic — the lexical units of an expression

The grammar is wider than what is computed.  Names, further operators and
number-like words are lexemes of their own, so that a text which uses them is
refused for what it asks and not as garbage.  A number keeps the text that was
written; its form is decided by the scanner and its value much later, so a
fault of form anywhere in the text comes before a fault of value.
-/

namespace Reckon
set_option autoImplicit false

/-- Operators and punctuation. -/
inductive Symbol where
  | plus | minus | star | slash | percent | caret | ampersand | pipe | ampersandCaret
  | shiftLeft | shiftRight | andAnd | orOr | equalEqual | bangEqual
  | less | lessEqual | greater | greaterEqual | bang | leftParen | rightParen | comma
  deriving DecidableEq, Repr

namespace Symbol

/-- How a symbol is written. -/
def chars : Symbol → List Char
  | plus => ['+']
  | minus => ['-']
  | star => ['*']
  | slash => ['/']
  | percent => ['%']
  | caret => ['^']
  | ampersand => ['&']
  | pipe => ['|']
  | ampersandCaret => ['&', '^']
  | shiftLeft => ['<', '<']
  | shiftRight => ['>', '>']
  | andAnd => ['&', '&']
  | orOr => ['|', '|']
  | equalEqual => ['=', '=']
  | bangEqual => ['!', '=']
  | less => ['<']
  | lessEqual => ['<', '=']
  | greater => ['>']
  | greaterEqual => ['>', '=']
  | bang => ['!']
  | leftParen => ['(']
  | rightParen => [')']
  | comma => [',']

/-- All symbols, the longer ones first. -/
def all : List Symbol :=
  [ampersandCaret, shiftLeft, shiftRight, andAnd, orOr, equalEqual, bangEqual, lessEqual,
   greaterEqual, plus, minus, star, slash, percent, caret, ampersand, pipe, less, greater,
   bang, leftParen, rightParen, comma]

theorem mem_all (symbol : Symbol) : symbol ∈ all := by
  cases symbol <;> decide

/-- The longest symbol at the front of a text. -/
def longest? (source : List Char) : Option Symbol :=
  all.find? fun symbol => symbol.chars.isPrefixOf source

end Symbol

/-- The lexical form of a number. -/
inductive NumberForm where
  /-- Digits only. -/
  | integer
  /-- A decimal with a point or an exponent. -/
  | real
  /-- A number-like word of any other shape. -/
  | other
  deriving DecidableEq, Repr

/-- A lexical unit. -/
inductive Lexeme where
  | number (form : NumberForm) (text : String)
  | name (text : String)
  | symbol (written : Symbol)
  /-- A run of blanks.  It separates other lexemes and is dropped. -/
  | blank
  deriving DecidableEq, Repr

namespace Lexeme

/-- A lexeme as messages show it. -/
def shown : Lexeme → String
  | number _ text | name text => "'" ++ text ++ "'"
  | symbol written => "'" ++ String.ofList written.chars ++ "'"
  | blank => "whitespace"

/-- Whether the lexeme is a run of blanks. -/
def isBlank : Lexeme → Bool
  | blank => true
  | _ => false

end Lexeme

/-- A lexeme and the byte offset at which it starts. -/
structure Placed where
  lexeme : Lexeme
  position : Nat
  deriving DecidableEq, Repr

end Reckon
