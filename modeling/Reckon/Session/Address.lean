/- Reckon.Session.Address — where a server is, and whether it can be reached

An address is a host and the number at which it serves, with a colon between
them; the last colon counts, so a host may hold colons of its own.  Which peer
an address leads to is the network's business and not the text's: a route is
either a peer or a failure to get there.
-/
import Reckon.Decimal.Text
import Reckon.Session.Client

namespace Reckon.Session
set_option autoImplicit false

/-- A host and the number at which it serves. -/
structure Address where
  host : String
  number : UInt16
  deriving DecidableEq, Repr

/-- The address used where none is given. -/
def defaultAddress : String := "localhost:9090"

/-- Reads the number of an address: digits, with or without a plus sign, for a
number below 65536. -/
def readNumber? (source : List Char) : Option UInt16 :=
  let digits := match source with
    | '+' :: digits => digits
    | digits => digits
  let size := Decimal.natOfDigits digits
  if digits.isEmpty || !digits.all Decimal.isDigit || 65536 ≤ size then none
  else some (UInt16.ofNat size)

/-- Reads an address. -/
def Address.read (source : String) : Except WireFault Address :=
  let reversed := source.toList.reverse
  let digits := (reversed.takeWhile (· != ':')).reverse
  match reversed.dropWhile (· != ':') with
  | [] => .error (.io "invalid socket address")
  | _ :: host =>
    match readNumber? digits with
    | none => .error (.io "invalid port value")
    | some number => .ok ⟨String.ofList host.reverse, number⟩

/-- Where the network leads. -/
inductive Route where
  /-- To a peer. -/
  | reaches (peer : Peer)
  /-- Nowhere. -/
  | unreachable

/-- What a connection attempt to an address answers, on a route. -/
def connect (route : Route) (address : String) : Except WireFault Peer := do
  let _ ← Address.read address
  match route with
  | .reaches peer => return peer
  | .unreachable => throw (.io "Network is unreachable (os error 101)")

end Reckon.Session
