/- Reckon.Proofs.CommandLine.Remote — a server's answer is printed like one's own

The calculator prints a value or a fault's message, and both reach it from a
server as they would have been found at home: the value bit for bit, and the
message as it is (`respond_of_answer`).  The line is read before a server is
looked for, so the two ways of asking also fail alike where there is no line.

What differs is what a frame cannot carry: a call or an answer that is too long
has no counterpart at home.
-/
import Reckon.CommandLine
import Reckon.Proofs.Session.AnswerLength

namespace Reckon.CommandLine
set_option autoImplicit false

open Session Wire

/-! ## Arguments -/

/-- The options that ask the server at an address. -/
def Options.at (address : String) : Options := { default with given := some address }

theorem addressValue?_append (address : String) :
    addressValue? ("--addr=" ++ address) = some address := by
  have opens : "--addr=".toList.isPrefixOf ("--addr=".toList ++ address.toList) = true :=
    List.isPrefixOf_iff_prefix.mpr (List.prefix_append _ _)
  rw [addressValue?, String.toList_append, if_pos opens, List.drop_left, String.ofList_toList]

/-- The address stands behind its option in the same argument. -/
theorem readArguments_equals (address : String) :
    readArguments .calculator .default ["--addr=" ++ address] = some (.run (.at address)) := by
  have other {text : String} (plain : addressValue? text = none) : "--addr=" ++ address ≠ text := by
    rintro rfl
    cases plain.symm.trans (addressValue?_append address)
  have ends : "--addr=" ++ address ≠ "--" := other (by decide)
  have version : "--addr=" ++ address ≠ "--version" := other (by decide)
  have apart : "--addr=" ++ address ≠ "--addr" := other (by decide)
  have meaning : readArgument .calculator .default ("--addr=" ++ address) =
      some (.options (.at address)) := by
    unfold readArgument
    rw [if_neg version, if_neg apart, addressValue?_append]
    rfl
  simp [readArguments, ends, meaning]

/-- The address follows as an argument of its own. -/
theorem readArguments_apart {address : String} (plain : hasOptionForm address = false) :
    readArguments .calculator .default ["--addr", address] = some (.run (.at address)) := by
  simp [readArguments, readArgument, plain, Options.withAddress?, Options.default, Options.at]

theorem readArguments_local :
    readArguments .calculator .default ["--local"] =
      some (.run { Options.default with locally := true }) := by
  have plain : addressValue? "--local" = none := by decide
  simp [readArguments, readArgument, plain, longFlag?, Options.withFlag?, Options.default]

/-! ## One answer -/

/-- What is printed for an expression: the text of its value, or the message of its
fault. -/
def printed (expression : String) : Except String String :=
  match calculate expression with
  | .error fault => .error fault.message
  | .ok x => .ok (Number.text x)

theorem respond_locally {options : Options} (here : options.locally = true)
    (value : options.postfixOnly = false) (route : Route) (expression : String) :
    respond options route expression = printed expression := by
  simp only [respond, here, value, printed]
  rfl

/-- A fault's message arrives as it was sent, and so do a value's bits. -/
theorem respond_of_answer {options : Options} {place : Address} {expression : String}
    {request reply : Bytes} (remote : options.locally = false) (value : options.postfixOnly = false)
    (served : Address.read options.address = .ok place)
    (asked : encode (.call 0 expression) = .ok request)
    (answered : encode (answer 0 expression) = .ok reply) :
    respond options (.reaches serve) expression = printed expression := by
  have called : calculateAt (.reaches serve) options.address expression =
      Client.accept 0 (.ok (answer 0 expression)) := by
    have received := (Client.call_of_answer inStep_fresh asked answered).1
    simp only [calculateAt, connect, served]
    exact received
  simp only [respond, remote, value, called, accept_answer, printed]
  cases calculate expression <;> rfl

theorem readExpression_of_toText? {input : Bytes} {line : String} (present : input ≠ [])
    (valid : toText? (input.takeWhile (· != 10)) = some line) :
    readExpression input = .ok (String.ofList (trimLineEnd line.toList)) := by
  rw [readExpression, List.isEmpty_eq_false_iff.mpr present, valid]
  rfl

/-- The calculator prints what it finds for the line. -/
theorem run_calculator {arguments : List String} {options : Options} {route : Route}
    {input : Bytes} {expression : String}
    (asks : readArguments .calculator .default arguments = some (.run options))
    (line : readExpression input = .ok expression) :
    run .calculator arguments route input = .ofResult (respond options route expression) := by
  simp only [run, asks, line]
  rfl

/-- **Asking a server prints what evaluating at home prints.**  With a line to read, and a
call and an answer that fit their frames, the calculator exits with the same code and the same
two texts whether a server finds the value or the calculator does. -/
theorem run_addr_eq_run_local {address line : String} {place : Address} {arguments : List String}
    {input request reply : Bytes}
    (asks : arguments = ["--addr=" ++ address] ∨
      arguments = ["--addr", address] ∧ hasOptionForm address = false)
    (served : Address.read address = .ok place) (present : input ≠ [])
    (valid : toText? (input.takeWhile (· != 10)) = some line)
    (asked : encode (.call 0 (String.ofList (trimLineEnd line.toList))) = .ok request)
    (answered : encode (answer 0 (String.ofList (trimLineEnd line.toList))) = .ok reply)
    (route : Route) :
    run .calculator arguments (.reaches serve) input = run .calculator ["--local"] route input ∧
      run .calculator ["--local"] route input =
        match calculate (String.ofList (trimLineEnd line.toList)) with
        | .ok x => .exited 0 (Number.text x ++ "\n") ""
        | .error fault => .exited 1 "" (fault.message ++ "\n") := by
  have read := readExpression_of_toText? present valid
  have there : readArguments .calculator .default arguments = some (.run (.at address)) := by
    rcases asks with rfl | ⟨rfl, plain⟩
    · exact readArguments_equals address
    · exact readArguments_apart plain
  have far : respond (.at address) (.reaches serve) _ = _ :=
    respond_of_answer rfl rfl served asked answered
  have near : respond { Options.default with locally := true } route _ = _ :=
    respond_locally rfl rfl route (String.ofList (trimLineEnd line.toList))
  rw [run_calculator there read, run_calculator readArguments_local read, far, near]
  refine ⟨rfl, ?_⟩
  rw [printed]
  cases calculate (String.ofList (trimLineEnd line.toList)) <;> rfl

/-- A line that does not parse, behind a carriage return and a line feed. -/
theorem run_addr_incomplete :
    let input := ofText "1/\r\n"
    ∃ place request reply, Address.read "localhost:9090" = .ok place ∧
      hasOptionForm "localhost:9090" = false ∧ input ≠ [] ∧
      toText? (input.takeWhile (· != 10)) = some "1/\r" ∧
      encode (.call 0 (String.ofList (trimLineEnd "1/\r".toList))) = .ok request ∧
      encode (answer 0 (String.ofList (trimLineEnd "1/\r".toList))) = .ok reply ∧
      run .calculator ["--addr", "localhost:9090"] (.reaches serve) input =
        .exited 1 "" (SourceFault.endOfText.message ++ "\n") := by
  intro input
  have served : Address.read "localhost:9090" = .ok ⟨"localhost", 9090⟩ := by decide
  have line : input.takeWhile (· != 10) = ofText "1/\r" := by decide
  have valid : toText? (input.takeWhile (· != 10)) = some "1/\r" := by
    rw [line, toText?_ofText]
  have trimmed : String.ofList (trimLineEnd "1/\r".toList) = "1/" := by decide
  have fits : CallFits "1/" := by decide
  have short : "1/".utf8ByteSize ≤ 65449 := by decide
  have asked := encode_call fits 0
  obtain ⟨reply, answered⟩ := answerFits_of_utf8ByteSize short 0
  have refused : Expr.parse "1/" = .error .endOfText := by cbv
  have failed : calculate "1/" = .error (.source .endOfText) := by
    simp [calculate, Program.compile, readingOrder, refused, bind, Except.bind]
  rw [← trimmed] at asked answered failed
  obtain ⟨same, outcome⟩ := run_addr_eq_run_local (.inr ⟨rfl, rfl⟩) served (by decide) valid
    asked answered .unreachable
  refine ⟨_, _, reply, served, rfl, by decide, valid, asked, answered, ?_⟩
  rw [same, outcome, failed]
  rfl

end Reckon.CommandLine
