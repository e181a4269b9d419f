/- Reckon.Lexeme.Number — the number at the front of a text

A number that starts with a digit is the longest run of letters, digits and
low lines, with one point inside or at its end.  Its form is the one its whole
text has: digits alone are an integer, digits with a point or an exponent a
real, and everything else, such as `0x10`, `1_000` or `1e`, is neither.

A signed exponent reaches past such a run.  Where the run ends in the exponent
letter and a sign follows, the sign and the digits behind it belong to the
number, and the number stops after them.  If no digit follows the sign, the
number ends with the letter, and its form is that of the part before it.

A number that starts with a point is the point, one or more digits, and a
complete exponent if one follows.
-/
import Reckon.Decimal.Text
import Reckon.Lexeme.Basic

namespace Reckon.Lexeme
set_option autoImplicit false

open Decimal (isDigit isExponentMark isSign splitFraction)

/-- An ASCII letter or a low line, which may open a name. -/
def isNameStart (c : Char) : Bool :=
  ('a' ≤ c && c ≤ 'z') || ('A' ≤ c && c ≤ 'Z') || c == '_'

/-- A character that continues a name or a number-like word. -/
def isWordChar (c : Char) : Bool := isDigit c || isNameStart c

/-- The longest number-like word at the front of a text, and what follows it. -/
def splitWord (source : List Char) : List Char × List Char :=
  let (whole, rest) := source.span isWordChar
  match rest with
  | '.' :: rest =>
      let (fraction, rest) := rest.span isWordChar
      (whole ++ '.' :: fraction, rest)
  | rest => (whole, rest)

/-- The form of the digits, with or without a point, at the front of a word,
and what follows them. -/
def mantissa (word : List Char) : NumberForm × List Char :=
  match word.dropWhile isDigit with
  | '.' :: rest => (.real, rest.dropWhile isDigit)
  | rest => (.integer, rest)

/-- The form and the text of the number at the front of a text that starts
with a digit. -/
def numberText (source : List Char) : NumberForm × List Char :=
  let (word, rest) := splitWord source
  let (form, tail) := mantissa word
  match tail with
  | [] => (form, word)
  | mark :: digits =>
    if !isExponentMark mark || !digits.all isDigit then (.other, word)
    else if !digits.isEmpty then (.real, word)
    else match rest with
      | sign :: more =>
        if !isSign sign then (.other, word)
        else
          let exponent := more.takeWhile isDigit
          if exponent.isEmpty then (form, word) else (.real, word ++ sign :: exponent)
      | [] => (.other, word)

/-- The complete exponent at the front of a text, or nothing. -/
def exponentText (source : List Char) : List Char :=
  match source with
  | [] => []
  | mark :: rest =>
    let sign := (rest.take 1).filter isSign
    let digits := (rest.drop sign.length).takeWhile isDigit
    if !isExponentMark mark || digits.isEmpty then [] else mark :: (sign ++ digits)

/-- The text of the number at the front of a text that starts with a point. -/
def fractionText? (source : List Char) : Option (List Char) :=
  let (digits, rest) := splitFraction source
  if digits.isEmpty then none else some ('.' :: (digits ++ exponentText rest))

end Reckon.Lexeme
