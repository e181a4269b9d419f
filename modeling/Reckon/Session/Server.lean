/- Reckon.Session.Server — the answering side of a connection

A server answers every call with a reply or an exception that carries the
call's own id, one after the other, and keeps nothing between calls.  Anything
else that arrives ends the connection: the end of the stream, a frame that
cannot be read, or a message that is not a call.  So does an answer that fits
no frame.
-/
import Reckon.Program
import Reckon.Wire.Frame

namespace Reckon.Session
set_option autoImplicit false

open Wire

/-- The answer to a call. -/
def answer (sequence : UInt32) (expression : String) : Message :=
  match calculate expression with
  | .ok x => .reply sequence x.toBits
  | .error fault => .exception sequence fault.kind fault.message

/-- The bytes that a server sends back on a connection on which `stream`
arrives. -/
def serve (stream : Bytes) : Bytes :=
  match received : read stream with
  | (.ok (.call sequence expression), rest) =>
    have := length_rest_lt received (by simp)
    match encode (answer sequence expression) with
    | .ok frame => frame ++ serve rest
    | .error _ => []
  | _ => []
termination_by stream.length

end Reckon.Session
