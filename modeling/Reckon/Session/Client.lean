/- Reckon.Session.Client — the calling side of a connection

A client makes one call at a time.  Each call takes the next sequence id,
whether or not it can be sent, and ids start over after the last.  A call that
was sent takes exactly one message from the other side, and only a reply or an
exception with the call's own id answers it.

The other side is a function from all bytes it has received to all bytes it
has sent.  A server is one, and so is a fixed script.
-/
import Reckon.Wire.Frame

namespace Reckon.Session
set_option autoImplicit false

open Wire

/-- The other side of a connection: what it has sent once it has received these
bytes. -/
abbrev Peer : Type := Bytes → Bytes

/-- The peer that sends the same bytes whatever it receives. -/
def scripted (script : Bytes) : Peer := fun _ => script

/-- One side of a connection, between two calls. -/
structure Client where
  /-- The id of the next call. -/
  next : UInt32
  /-- All bytes sent so far. -/
  sent : Bytes
  /-- How many of the peer's bytes have been read. -/
  taken : Nat
  deriving Repr

namespace Client

/-- A client that has made no call. -/
def fresh : Client := ⟨0, [], 0⟩

/-- What a received message means for the call with an id. -/
def accept (sequence : UInt32) (received : Except WireFault Message) :
    Except WireFault Float :=
  match received with
  | .error fault => .error fault
  | .ok (.call _ _) => .error (.unexpectedMessage "server sent a call")
  | .ok (.reply found bits) =>
      if found = sequence then .ok (Float.ofBits bits)
      else .error (.sequenceMismatch sequence found)
  | .ok (.exception found kind message) =>
      if found = sequence then .error (.remote kind message)
      else .error (.sequenceMismatch sequence found)

/-- Calls the peer for the value of an expression. -/
def call (client : Client) (peer : Peer) (expression : String) :
    Except WireFault Float × Client :=
  let sequence := client.next
  match encode (.call sequence expression) with
  | .error fault => (.error fault, { client with next := sequence + 1 })
  | .ok frame =>
    let sent := client.sent ++ frame
    let incoming := (peer sent).drop client.taken
    let (received, rest) := read incoming
    (accept sequence received,
      ⟨sequence + 1, sent, client.taken + (incoming.length - rest.length)⟩)

/-- Calls for one expression after the other. -/
def callAll (client : Client) (peer : Peer) :
    List String → List (Except WireFault Float) × Client
  | [] => ([], client)
  | expression :: expressions =>
    let (result, client) := client.call peer expression
    let (results, client) := client.callAll peer expressions
    (result :: results, client)

end Client
end Reckon.Session
