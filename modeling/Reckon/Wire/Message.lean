/- Reckon.Wire.Message — messages and the bodies that carry them

A body is a type byte, a sequence id of four bytes and a payload: the
expression's text for a call, the eight bytes of a double for a reply, and a
kind's byte with the message's text for an exception.  A reply keeps the bits
of its double, so that a body is decoded without loss whatever the bits are.
Decoding names the first thing that is wrong with a body, and encoding refuses
a body that no reader would take.
-/
import Reckon.Wire.Bytes
import Reckon.Wire.Fault

namespace Reckon.Wire
set_option autoImplicit false

/-- What the two sides of a connection say to each other. -/
inductive Message where
  /-- Asks for the value of an expression. -/
  | call (sequence : UInt32) (expression : String)
  /-- The value that a call asked for, as the bits of a double. -/
  | reply (sequence : UInt32) (bits : UInt64)
  /-- Why the expression of a call has no value. -/
  | exception (sequence : UInt32) (kind : Fault.Kind) (message : String)
  deriving DecidableEq, Repr

namespace Message

/-- The id of the call that a message is or answers. -/
def sequence : Message → UInt32
  | call sequence _ | reply sequence _ | exception sequence _ _ => sequence

/-- The body of a message. -/
def body : Message → Bytes
  | call sequence expression => 1 :: (bigEndian 4 sequence.toNat ++ ofText expression)
  | reply sequence bits => 2 :: (bigEndian 4 sequence.toNat ++ bigEndian 8 bits.toNat)
  | exception sequence kind message =>
      3 :: (bigEndian 4 sequence.toNat ++ kind.code :: ofText message)

/-- The text of a payload. -/
def payloadText (payload : Bytes) : Except WireFault String :=
  match toText? payload with
  | some text => .ok text
  | none => .error (.invalidFrame "payload is not valid UTF-8")

/-- The reply with a payload. -/
def decodeReply (sequence : UInt32) (payload : Bytes) : Except WireFault Message :=
  if payload.length = 8 then .ok (.reply sequence (UInt64.ofNat (ofBigEndian payload)))
  else
    .error (.invalidFrame
      ("reply payload is " ++ payload.length.repr ++ " bytes, expected 8"))

/-- The exception with a payload. -/
def decodeException (sequence : UInt32) (payload : Bytes) : Except WireFault Message :=
  match payload with
  | [] => .error (.invalidFrame "exception without error kind")
  | code :: payload =>
    match Fault.Kind.ofCode? code with
    | none => .error (.invalidFrame ("unknown error kind " ++ code.toNat.repr))
    | some kind => (payloadText payload).map (.exception sequence kind)

/-- The message with a body. -/
def decode (body : Bytes) : Except WireFault Message :=
  let (head, payload) := body.splitAt minBody
  match head with
  | [type, a, b, c, d] =>
    let sequence := UInt32.ofNat (ofBigEndian [a, b, c, d])
    match type.toNat with
    | 1 => (payloadText payload).map (.call sequence)
    | 2 => decodeReply sequence payload
    | 3 => decodeException sequence payload
    | unknown => .error (.invalidFrame ("unknown message type " ++ unknown.repr))
  | _ =>
    .error (.invalidFrame
      ("body of " ++ body.length.repr ++ " bytes is shorter than " ++ minBody.repr))

end Message
end Reckon.Wire
