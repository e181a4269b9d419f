/- Reckon.Wire.Fault — what can go wrong on a connection

A wire fault is about the bytes, about the conversation, or the other side's
own answer: `remote` carries the kind and the message of a fault that the
server found in the expression, and its message is that message unchanged.
-/
import Reckon.Fault.Kind

namespace Reckon
set_option autoImplicit false

namespace Wire

/-- The bytes of a length prefix. -/
def headerSize : Nat := 4

/-- The least body: a type byte and a sequence id. -/
def minBody : Nat := 5

/-- The greatest body. -/
def maxBody : Nat := 65536

end Wire

/-- Why a message was not exchanged, or a call not answered with a value. -/
inductive WireFault where
  /-- The connection itself failed. -/
  | io (reason : String)
  /-- The stream ended where a length prefix was due. -/
  | closed
  /-- A frame that spells no message. -/
  | invalidFrame (reason : String)
  /-- A frame body of this many bytes. -/
  | frameTooLarge (size : Nat)
  /-- An answer to another call. -/
  | sequenceMismatch (expected found : UInt32)
  /-- A message that this side does not take. -/
  | unexpectedMessage (reason : String)
  /-- The other side's fault. -/
  | remote (kind : Fault.Kind) (message : String)
  deriving DecidableEq, Repr

namespace WireFault

/-- The message of a wire fault. -/
def message : WireFault → String
  | io reason => "I/O error: " ++ reason
  | closed => "Connection closed"
  | invalidFrame reason => "Invalid frame: " ++ reason
  | frameTooLarge size =>
      "Frame body of " ++ size.repr ++ " bytes exceeds maximum " ++ Wire.maxBody.repr
  | sequenceMismatch expected found =>
      "Expected reply to call " ++ expected.toNat.repr ++ ", got " ++ found.toNat.repr
  | unexpectedMessage reason => "Unexpected message: " ++ reason
  | remote _ message => message

end WireFault
end Reckon
