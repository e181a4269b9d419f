/- Reckon.Lexeme.Scan — a text as a sequence of lexemes

Scanning takes the lexeme at the front, whatever it is, and goes on behind it;
blanks are lexemes too and are dropped at the end.  Every lexeme is ASCII, so
it is as many bytes as characters, and offsets are byte offsets whatever the
rest of the text holds.  Where no lexeme starts, the character that stands
there is the fault.
-/
import Reckon.Fault.Source
import Reckon.Lexeme.Number

namespace Reckon.Lexeme
set_option autoImplicit false

open Decimal (isDigit)

/-- Space, tab, the two line terminators and form feed. -/
def isGap (c : Char) : Bool :=
  c == ' ' || c == '\t' || c == '\r' || c == '\n' || c == '\x0c'

/-- The lexeme at the front of a text, and its text. -/
def first? (source : List Char) : Option (Lexeme × List Char) :=
  match source with
  | [] => none
  | c :: _ =>
    if isGap c then some (blank, source.takeWhile isGap)
    else if isDigit c then
      let (form, text) := numberText source
      some (.number form (String.ofList text), text)
    else if c == '.' then
      (fractionText? source).map fun text => (.number .real (String.ofList text), text)
    else if isNameStart c then
      let text := source.takeWhile isWordChar
      some (name (String.ofList text), text)
    else (Symbol.longest? source).map fun written => (.symbol written, written.chars)

/-- The lexemes of a text that starts at the offset `position`, behind those
already found, which are held latest first. -/
def scanFrom (position : Nat) (found : List Placed) :
    List Char → Except SourceFault (List Placed)
  | [] => .ok found.reverse
  | c :: rest =>
    match first? (c :: rest) with
    | none => .error (.strayCharacter (String.singleton c) position)
    | some (lexeme, text) =>
        scanFrom (position + text.length) (⟨lexeme, position⟩ :: found)
          (rest.drop (text.length - 1))
termination_by source => source.length
decreasing_by
  simp only [List.length_drop, List.length_cons]
  omega

/-- The lexemes of a text, blanks left out. -/
def scan (source : String) : Except SourceFault (List Placed) := do
  let lexemes ← scanFrom 0 [] source.toList
  return lexemes.filter fun placed => !placed.lexeme.isBlank

end Reckon.Lexeme
