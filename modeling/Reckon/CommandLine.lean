/- Reckon.CommandLine — the two programs as functions

The calculator takes one expression from the first line of its input and
prints its value, found by a server unless the arguments say otherwise, or its
postfix text.  The daemon serves at an address.  Both are functions here: from
arguments, input and the network's route to what is printed and the exit code.
The line is read before a server is looked for, and a result is never mixed
with a fault: a result goes to standard output with code zero, a fault to
standard error with code one.
-/
import Reckon.Session.Address
import Reckon.Session.Server

namespace Reckon.CommandLine
set_option autoImplicit false

open Session

/-- Which program runs. -/
inductive Tool where
  | calculator
  | daemon
  deriving DecidableEq, Repr

/-- What the arguments say. -/
structure Options where
  /-- The address, if one is given. -/
  given : Option String
  locally : Bool
  postfixOnly : Bool
  verbose : Bool
  deriving DecidableEq, Repr

namespace Options

/-- The options of an empty argument list. -/
def default : Options := ⟨none, false, false, false⟩

/-- The address to use. -/
def address (options : Options) : String := options.given.getD defaultAddress

end Options

/-- What the arguments ask for. -/
inductive Request where
  | version
  | run (options : Options)
  deriving DecidableEq, Repr

/-- How a program ends. -/
inductive Outcome where
  /-- It exits with a code, having printed these texts. -/
  | exited (code : Nat) (output : String) (errors : String)
  /-- It serves at an address until it is stopped. -/
  | listening (address : String)
  /-- Its arguments mean nothing. -/
  | misused
  deriving DecidableEq, Repr

/-! ## Arguments

Options stand in any order, each at most once.  Flags of one letter may share a
hyphen, and the address follows its option in the same argument or as the next
one.  Two hyphens alone end the options; no argument is taken behind them. -/

namespace Options

/-- The options with the address given. -/
def withAddress? (options : Options) (address : String) : Option Options :=
  if options.given.isSome then none else some { options with given := some address }

/-- The options with a flag set, for a program that has the flag. -/
def withFlag? (tool : Tool) (options : Options) (flag : Char) : Option Options :=
  match tool, flag with
  | _, 'v' => if options.verbose then none else some { options with verbose := true }
  | .calculator, 'l' =>
      if options.locally then none else some { options with locally := true }
  | .calculator, 'r' =>
      if options.postfixOnly then none else some { options with postfixOnly := true }
  | _, _ => none

end Options

/-- The letter of a flag's long name. -/
def longFlag? : String → Option Char
  | "--local" => some 'l'
  | "--rpn" => some 'r'
  | "--verbose" => some 'v'
  | _ => none

/-- The value in a long option for the address, `--addr=value`. -/
def addressValue? (argument : String) : Option String :=
  let name := "--addr=".toList
  if name.isPrefixOf argument.toList then
    some (String.ofList (argument.toList.drop name.length))
  else none

/-- Whether an argument has the form of an option, and so is never the value of
the option before it.  A hyphen alone has not. -/
def hasOptionForm (argument : String) : Bool :=
  match argument.toList with
  | '-' :: _ :: _ => true
  | _ => false

/-- What a single argument says. -/
inductive Meaning where
  /-- Print the version; nothing behind this is looked at. -/
  | version
  /-- These are the options so far. -/
  | options (options : Options)
  /-- The address follows as an argument of its own. -/
  | awaitsAddress (options : Options)

/-- Reads the letters behind a single hyphen.  What stands behind the letter of
the address, an equals sign left out, is the address. -/
def readCluster (tool : Tool) (options : Options) : List Char → Option Meaning
  | [] => some (.options options)
  | 'V' :: _ => some .version
  | 'a' :: [] => some (.awaitsAddress options)
  | 'a' :: '=' :: value => (options.withAddress? (String.ofList value)).map .options
  | 'a' :: value => (options.withAddress? (String.ofList value)).map .options
  | flag :: flags =>
    match options.withFlag? tool flag with
    | some options => readCluster tool options flags
    | none => none

/-- Reads one argument. -/
def readArgument (tool : Tool) (options : Options) (argument : String) : Option Meaning :=
  if argument = "--version" then some .version
  else if argument = "--addr" then some (.awaitsAddress options)
  else
    match addressValue? argument, longFlag? argument, argument.toList with
    | some value, _, _ => (options.withAddress? value).map .options
    | none, some flag, _ => (options.withFlag? tool flag).map .options
    | none, none, '-' :: letter :: letters => readCluster tool options (letter :: letters)
    | none, none, _ => none

/-- Reads the arguments from the left. -/
def readArguments (tool : Tool) (options : Options) : List String → Option Request
  | [] => some (.run options)
  | argument :: arguments =>
    if argument = "--" then (if arguments.isEmpty then some (.run options) else none)
    else
      match readArgument tool options argument, arguments with
      | none, _ => none
      | some .version, _ => some .version
      | some (.options options), arguments => readArguments tool options arguments
      | some (.awaitsAddress _), [] => none
      | some (.awaitsAddress options), value :: arguments =>
        if hasOptionForm value then none
        else
          match options.withAddress? value with
          | some options => readArguments tool options arguments
          | none => none

/-! ## Input -/

/-- A text without the line terminators at its end. -/
def trimLineEnd (line : List Char) : List Char :=
  (line.reverse.dropWhile fun c => c == '\r' || c == '\n').reverse

/-- The expression on the first line of the input, or why there is none. -/
def readExpression (input : Wire.Bytes) : Except String String :=
  if input.isEmpty then .error "No expression on standard input."
  else match Wire.toText? (input.takeWhile (· != 10)) with
    | none => .error "stream did not contain valid UTF-8"
    | some line => .ok (String.ofList (trimLineEnd line.toList))

/-! ## Running -/

/-- The value that a server finds for an expression. -/
def calculateAt (route : Route) (address expression : String) : Except WireFault Float := do
  let peer ← connect route address
  (Client.fresh.call peer expression).1

/-- What the calculator prints for an expression: its text, or a fault's
message. -/
def respond (options : Options) (route : Route) (expression : String) :
    Except String String :=
  if options.postfixOnly then
    match Program.compile expression with
    | .error fault => .error fault.message
    | .ok program => .ok program.text
  else if options.locally then
    match calculate expression with
    | .error fault => .error fault.message
    | .ok x => .ok (Number.text x)
  else
    match calculateAt route options.address expression with
    | .error fault => .error fault.message
    | .ok x => .ok (Number.text x)

/-- A result on standard output, or a fault on standard error. -/
def Outcome.ofResult : Except String String → Outcome
  | .ok line => exited 0 (line ++ "\n") ""
  | .error line => exited 1 "" (line ++ "\n")

/-- Runs a program. -/
def run (tool : Tool) (arguments : List String) (route : Route) (input : Wire.Bytes) : Outcome :=
  match tool, readArguments tool .default arguments with
  | _, none => .misused
  | _, some .version => .exited 0 "calculus 0.1.0\n" ""
  | .calculator, some (.run options) =>
      .ofResult (do respond options route (← readExpression input))
  | .daemon, some (.run options) =>
    match Address.read options.address with
    | .error fault => .ofResult (.error fault.message)
    | .ok _ => .listening options.address

end Reckon.CommandLine
