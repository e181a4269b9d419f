/- Reckon.Proofs.Session.AnswerLength — which calls are answered

A call is answered with a frame unless the answer fits none.  A value always
fits.  A fault's message copies a part of the expression and has words around it,
so a message can be too long for an answer when the expression was not too long
for a call, and the server then closes the connection.  Only expressions of the
last 82 lengths that a call can have come to this (`call_answered_iff`), and of
each of these lengths there is one that does (`exists_call_closing`).
-/
import Reckon.Proofs.Fault.Length
import Reckon.Proofs.Session.Conversation
import Reckon.Proofs.Session.Serving

namespace Reckon.Session
set_option autoImplicit false

open Wire

/-! ## Answers that fit -/

/-- The answer that carries a message of this length takes six bytes more. -/
theorem length_body_answer_of_error {expression : String} {fault : CalcFault}
    (failed : calculate expression = .error fault) (sequence : UInt32) :
    (answer sequence expression).body.length = 6 + fault.message.utf8ByteSize := by
  rw [answer, failed, Message.length_body_exception]

/-- An answer fits a frame if and only if the message in it leaves room for the rest. -/
theorem answerFits_iff (expression : String) :
    AnswerFits expression ↔
      ∀ fault, calculate expression = .error fault → fault.message.utf8ByteSize ≤ 65530 := by
  constructor
  · intro answers fault failed
    obtain ⟨encoded, written⟩ := answers 0
    have most := ((encode_eq_ok_iff _ _).mp written).1
    rw [length_body_answer_of_error failed, maxBody] at most
    omega
  · intro short
    cases failed : calculate expression with
    | ok x => exact answerFits_of_calculate failed
    | error fault =>
      intro sequence
      have room := short fault failed
      refine ⟨_, (encode_eq_ok_iff _ _).mpr ⟨?_, rfl⟩⟩
      rw [length_body_answer_of_error failed, maxBody]
      omega

/-- The answer to an expression of at most 65449 bytes fits, whatever is wrong with it. -/
theorem answerFits_of_utf8ByteSize {expression : String}
    (short : expression.utf8ByteSize ≤ 65449) : AnswerFits expression := by
  refine (answerFits_iff expression).mpr fun fault failed => ?_
  have bound := utf8ByteSize_message_of_calculate failed
  omega

/-- **Which calls are answered.**  A call that fits a frame is answered, with its own
sequence id, if its expression has at most 65449 bytes.  Whatever its length, it is answered
if and only if its expression has a value or a fault whose message has at most 65530 bytes.
A server that cannot answer closes the connection. -/
theorem call_answered_iff (sequence : UInt32) (expression : String) {encoded : Bytes}
    (written : encode (.call sequence expression) = .ok encoded) :
    (answer sequence expression).sequence = sequence ∧
      (expression.utf8ByteSize ≤ 65449 →
        ∃ reply, encode (answer sequence expression) = .ok reply) ∧
      ((∃ reply, encode (answer sequence expression) = .ok reply) ↔
        ∀ fault, calculate expression = .error fault → fault.message.utf8ByteSize ≤ 65530) ∧
      ∀ stream, serve (encoded ++ stream) =
        match encode (answer sequence expression) with
        | .ok reply => reply ++ serve stream
        | .error _ => [] := by
  refine ⟨sequence_answer _ _, fun short => answerFits_of_utf8ByteSize short sequence, ?_,
    serve_call written⟩
  rw [← answerFits_iff]
  constructor
  · rintro ⟨reply, replied⟩
    by_contra large
    obtain ⟨fault, refused⟩ := encode_answer_eq_error large sequence
    simp [replied] at refused
  · intro answers
    exact answers sequence

/-- A call for an expression that is not complete is answered. -/
theorem incomplete_call_answered :
    let encoded := frame (Message.call 7 "1/").body
    encode (.call 7 "1/") = .ok encoded ∧
      ∃ reply, encode (answer 7 "1/") = .ok reply ∧
        ∀ stream, serve (encoded ++ stream) = reply ++ serve stream := by
  intro encoded
  have fits : CallFits "1/" := by decide
  have written : encode (.call 7 "1/") = .ok encoded := encode_call fits 7
  obtain ⟨-, short, -, served⟩ := call_answered_iff 7 "1/" written
  obtain ⟨reply, replied⟩ := short (by decide)
  refine ⟨written, reply, replied, fun stream => ?_⟩
  rw [served stream, replied]

/-! ## Answers that do not fit -/

/-- A name and right behind it a fraction of this many digits. -/
def nameAndFraction (digits : Nat) : String :=
  String.ofList ('a' :: '.' :: List.replicate digits '5')

theorem utf8ByteSize_nameAndFraction (digits : Nat) :
    (nameAndFraction digits).utf8ByteSize = digits + 2 := by
  rw [nameAndFraction, String.utf8ByteSize_ofList, String.utf8Len_cons, String.utf8Len_cons,
    Text.utf8Len_replicate rfl]
  rfl

theorem callFits_nameAndFraction {digits : Nat} (few : digits ≤ 65529) :
    CallFits (nameAndFraction digits) := by
  rw [CallFits, utf8ByteSize_nameAndFraction]
  omega

/-- The fraction as a lexeme. -/
def fraction (digits : Nat) : Placed :=
  ⟨.number .real (String.ofList ('.' :: List.replicate digits '5')), 1⟩

theorem utf8ByteSize_shown_fraction (digits : Nat) :
    (fraction digits).lexeme.shown.utf8ByteSize = digits + 3 := by
  rw [fraction, Lexeme.shown, Lexeme.utf8ByteSize_quoted, String.utf8ByteSize_ofList,
    String.utf8Len_cons, Text.utf8Len_replicate rfl]
  rfl

theorem fractionText?_replicate (digits : Nat) :
    Lexeme.fractionText? ('.' :: List.replicate (digits + 1) '5') =
      some ('.' :: List.replicate (digits + 1) '5') := by
  simp [Lexeme.fractionText?, Decimal.splitFraction, List.span_eq_takeWhile_dropWhile,
    Decimal.isDigit, Lexeme.exponentText]

/-- A name holds no point, so it ends before it and the fraction starts with it. -/
theorem scan_nameAndFraction (digits : Nat) :
    Lexeme.scan (nameAndFraction (digits + 1)) = .ok [⟨.name "a", 0⟩, fraction (digits + 1)] := by
  have name : Lexeme.first? ('a' :: '.' :: List.replicate (digits + 1) '5') =
      some (.name "a", ['a']) := by
    simp [Lexeme.first?, Lexeme.isGap, Decimal.isDigit, Lexeme.isNameStart, Lexeme.isWordChar]
  have number : Lexeme.first? ('.' :: List.replicate (digits + 1) '5') =
      some (.number .real (String.ofList ('.' :: List.replicate (digits + 1) '5')),
        '.' :: List.replicate (digits + 1) '5') := by
    simp [Lexeme.first?, Lexeme.isGap, Decimal.isDigit, fractionText?_replicate]
  simp [Lexeme.scan, nameAndFraction, Lexeme.scanFrom, name, number, fraction, bind, Except.bind,
    pure, Except.pure, Lexeme.isBlank]

theorem calculate_nameAndFraction (digits : Nat) :
    calculate (nameAndFraction (digits + 1)) =
      .error (.source (.trailingLexeme (fraction (digits + 1)).lexeme.shown 1)) := by
  have name : Expr.Derives Expr.maxNesting .or [⟨.name "a", 0⟩] (.name "a" 0) :=
    (Expr.Derives.name "a" 0).of_primary .or
  have stops : Expr.Stops 6 [fraction (digits + 1)] := by
    simp [Expr.Stops, fraction, Lexeme.binary?]
  have trailing : Expr.ofLexemes [⟨.name "a", 0⟩, fraction (digits + 1)] =
      .error (.trailingLexeme (fraction (digits + 1)).lexeme.shown 1) :=
    Expr.ofLexemes_of_trailing name stops
  have parsed := Expr.parse_eq_ofLexemes (scan_nameAndFraction digits)
  simp [calculate, Program.compile, readingOrder, parsed, trailing, bind, Except.bind]

/-- The message shows all of the fraction. -/
theorem utf8ByteSize_message_nameAndFraction (digits : Nat) :
    (CalcFault.source
      (.trailingLexeme (fraction digits).lexeme.shown 1)).message.utf8ByteSize = digits + 83 := by
  have one : (1 : Nat).repr.utf8ByteSize = 1 := by decide
  simp only [CalcFault.message, SourceFault.utf8ByteSize_message, utf8ByteSize_shown_fraction, one]
  omega

theorem encode_answer_nameAndFraction {digits : Nat} (many : 65447 ≤ digits)
    (sequence : UInt32) :
    encode (answer sequence (nameAndFraction (digits + 1))) =
      .error (.frameTooLarge (digits + 90)) := by
  have length := length_body_answer_of_error (calculate_nameAndFraction digits) sequence
  rw [utf8ByteSize_message_nameAndFraction] at length
  rw [encode, if_pos (by rw [length, maxBody]; omega), length]
  congr 2
  omega

/-- An expression of 65450 bytes that is not answered: its call takes 81 bytes less than a
frame holds, the answer would take one byte more. -/
theorem call_not_answered :
    let expression := nameAndFraction 65448
    ∃ encoded, encode (.call 1 expression) = .ok encoded ∧
      encode (answer 1 expression) = .error (.frameTooLarge 65537) ∧
      (∀ reply, encode (answer 1 expression) ≠ .ok reply) ∧ serve encoded = [] := by
  intro expression
  have fits : CallFits expression := callFits_nameAndFraction (by decide)
  have refused : encode (answer 1 expression) = .error (.frameTooLarge 65537) :=
    encode_answer_nameAndFraction (Nat.le_refl 65447) 1
  have silent := serve_call (encode_call fits 1) []
  rw [refused, List.append_nil] at silent
  exact ⟨_, encode_call fits 1, refused, by simp [refused], silent⟩

/-- Of every length from 65450 bytes to the greatest that a call can have, there is an
expression that the server closes the connection for. -/
theorem exists_call_closing {size : Nat} (least : 65450 ≤ size) (most : size ≤ 65531) :
    ∃ expression, expression.utf8ByteSize = size ∧
      ∀ sequence, ∃ encoded, encode (.call sequence expression) = .ok encoded ∧
        ∀ stream, serve (encoded ++ stream) = [] := by
  obtain ⟨digits, rfl⟩ : ∃ digits, size = digits + 3 := ⟨size - 3, by omega⟩
  have bytes : (nameAndFraction (digits + 1)).utf8ByteSize = digits + 3 :=
    utf8ByteSize_nameAndFraction _
  have fits : CallFits (nameAndFraction (digits + 1)) := callFits_nameAndFraction (by omega)
  refine ⟨nameAndFraction (digits + 1), bytes, fun sequence => ?_⟩
  refine ⟨_, encode_call fits sequence, fun stream => ?_⟩
  rw [serve_call (encode_call fits sequence), encode_answer_nameAndFraction (by omega) sequence]

end Reckon.Session
