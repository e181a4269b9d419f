/- Reckon.Wire.Frame — messages in a stream of bytes

A frame is the length of a body, in four bytes, and the body.  `read` takes
one message off the front of a stream and answers with what is left of it.  A
length that no body may have is refused with only the prefix taken; a body
that spells no message is taken whole.  A stream that ends before a prefix is
complete has been closed, and one that ends within a body has been cut off.

Every answer but "closed" takes at least the prefix, so reading a stream to
its end ends.
-/
import Reckon.Wire.Message

namespace Reckon.Wire
set_option autoImplicit false

/-! ## Writing -/

/-- A body behind its length. -/
def frame (body : Bytes) : Bytes := bigEndian headerSize body.length ++ body

/-- The frame of a message. -/
def encode (message : Message) : Except WireFault Bytes :=
  let body := message.body
  if maxBody < body.length then .error (.frameTooLarge body.length) else .ok (frame body)

/-- Writes a message behind the bytes already written.  A message that has no
frame leaves them as they are. -/
def write (written : Bytes) (message : Message) : Except WireFault Unit × Bytes :=
  match encode message with
  | .error fault => (.error fault, written)
  | .ok frame => (.ok (), written ++ frame)

/-- Writes one message after the other: what writing answers each time, and all
that is written in the end. -/
def writeAll (written : Bytes) : List Message → List (Except WireFault Unit) × Bytes
  | [] => ([], written)
  | message :: messages =>
    let (result, written) := write written message
    let (results, written) := writeAll written messages
    (result :: results, written)

/-! ## Reading -/

/-- Reads a message off the front of a stream. -/
def read (stream : Bytes) : Except WireFault Message × Bytes :=
  let (header, rest) := stream.splitAt headerSize
  let size := ofBigEndian header
  if header.length < headerSize then (.error .closed, [])
  else if maxBody < size then (.error (.frameTooLarge size), rest)
  else if size < minBody then
    (.error (.invalidFrame
      ("body length " ++ size.repr ++ " is shorter than " ++ minBody.repr)), rest)
  else
    let (body, rest) := rest.splitAt size
    if body.length < size then (.error (.io "early eof"), [])
    else (Message.decode body, rest)

/-- Decoding never answers "closed": that is about streams. -/
theorem decode_ne_closed (body : Bytes) : Message.decode body ≠ .error .closed := by
  have text : ∀ (payload : Bytes) (build : String → Message),
      (Message.payloadText payload).map build ≠ .error .closed := by
    intro payload build
    unfold Message.payloadText
    cases toText? payload <;> simp [Except.map]
  unfold Message.decode
  simp only [List.splitAt_eq]
  split
  · split
    · exact text _ _
    · unfold Message.decodeReply
      split <;> simp
    · unfold Message.decodeException
      split
      · simp
      · split
        · simp
        · exact text _ _
    · simp
  · simp

/-- Reading takes at least a prefix off the stream, unless the stream is
closed. -/
theorem length_read_lt (stream : Bytes) (opened : (read stream).1 ≠ .error .closed) :
    (read stream).2.length < stream.length := by
  unfold read at opened ⊢
  simp only [List.splitAt_eq, List.length_take] at opened ⊢
  split
  · rename_i short
    simp [short] at opened
  · rename_i long
    have prefixed : headerSize ≤ stream.length := by omega
    have positive : 0 < headerSize := by decide
    split
    · simp only [List.length_drop]; omega
    · split
      · simp only [List.length_drop]; omega
      · split
        · simp only [List.length_nil]; omega
        · simp only [List.length_drop]; omega

/-- What reading leaves, when it answers anything but "closed". -/
theorem length_rest_lt {stream rest : Bytes} {result : Except WireFault Message}
    (received : read stream = (result, rest)) (opened : result ≠ .error .closed) :
    rest.length < stream.length := by
  have shorter := length_read_lt stream (by rwa [received])
  rwa [received] at shorter

/-- Reads a stream to its end: what reading answers again and again, up to the
first "closed". -/
def readAll (stream : Bytes) : List (Except WireFault Message) :=
  match received : read stream with
  | (.ok message, rest) =>
      have := length_rest_lt received (by simp)
      .ok message :: readAll rest
  | (.error fault, rest) =>
    if ended : fault = .closed then [.error fault]
    else
      have := length_rest_lt received (by simpa using ended)
      .error fault :: readAll rest
termination_by stream.length

end Reckon.Wire
