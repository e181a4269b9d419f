/- Reckon.Proofs.Wire.Codec — what is written is read back

A body is decoded to the message that it was made of (`decode_body`), and a
frame is read off the front of a stream without touching what stands behind it
(`read_frame`).  Together: a message that has a frame is read back from any
stream that starts with that frame (`read_encode`).
-/
import Mathlib
import Reckon.Wire.Frame

namespace Reckon.Wire
set_option autoImplicit false

/-! ## Bodies -/

@[simp] theorem length_ofText (text : String) : (ofText text).length = text.utf8ByteSize := by
  simp only [ofText, Array.length_toList, String.toUTF8_eq_toByteArray]
  rfl

namespace Message

@[simp] theorem length_body_call (sequence : UInt32) (expression : String) :
    (call sequence expression).body.length = 5 + expression.utf8ByteSize := by
  simp only [body, List.length_cons, List.length_append, length_bigEndian, length_ofText]
  omega

@[simp] theorem length_body_reply (sequence : UInt32) (bits : UInt64) :
    (reply sequence bits).body.length = 13 := by
  simp [body]

@[simp] theorem length_body_exception (sequence : UInt32) (kind : Fault.Kind)
    (message : String) :
    (exception sequence kind message).body.length = 6 + message.utf8ByteSize := by
  simp only [body, List.length_cons, List.length_append, length_bigEndian, length_ofText]
  omega

theorem minBody_le_length_body (message : Message) : minBody ≤ message.body.length := by
  unfold minBody
  cases message with
  | call sequence expression => rw [length_body_call]; omega
  | reply sequence bits => rw [length_body_reply]; omega
  | exception sequence kind message => rw [length_body_exception]; omega

/-- A body falls apart into its type byte, the four bytes of its sequence id and
its payload. -/
theorem splitAt_fields (type : UInt8) (sequence : UInt32) (payload : Bytes) :
    ∃ a b c d,
      (type :: (bigEndian 4 sequence.toNat ++ payload)).splitAt minBody =
        ([type, a, b, c, d], payload) ∧
      UInt32.ofNat (ofBigEndian [a, b, c, d]) = sequence := by
  have back : ofBigEndian (bigEndian 4 sequence.toNat) = sequence.toNat :=
    ofBigEndian_bigEndian sequence.toNat_lt
  obtain ⟨a, b, c, d, spelled⟩ : ∃ a b c d, bigEndian 4 sequence.toNat = [a, b, c, d] :=
    ⟨_, _, _, _, rfl⟩
  rw [spelled] at back ⊢
  refine ⟨a, b, c, d, by simp [minBody], ?_⟩
  rw [back, UInt32.ofNat_toNat]

/-- **Decoding undoes encoding.** -/
theorem decode_body (message : Message) : decode message.body = .ok message := by
  cases message with
  | call sequence expression =>
    obtain ⟨a, b, c, d, fields, same⟩ := splitAt_fields 1 sequence (ofText expression)
    simp [decode, body, fields, same, payloadText, Except.map, -List.splitAt_eq]
  | reply sequence bits =>
    obtain ⟨a, b, c, d, fields, same⟩ := splitAt_fields 2 sequence (bigEndian 8 bits.toNat)
    have back : ofBigEndian (bigEndian 8 bits.toNat) = bits.toNat :=
      ofBigEndian_bigEndian bits.toNat_lt
    simp [decode, body, fields, same, decodeReply, back, -List.splitAt_eq]
  | exception sequence kind message =>
    obtain ⟨a, b, c, d, fields, same⟩ :=
      splitAt_fields 3 sequence (kind.code :: ofText message)
    simp [decode, body, fields, same, decodeException, payloadText, Except.map, -List.splitAt_eq]

end Message

/-! ## Frames -/

theorem encode_eq_ok_iff (message : Message) (encoded : Bytes) :
    encode message = .ok encoded ↔
      message.body.length ≤ maxBody ∧ encoded = frame message.body := by
  unfold encode
  by_cases large : maxBody < message.body.length
  · simp [large, Nat.not_le.mpr large]
  · simp [large, Nat.not_lt.mp large, eq_comm]

/-- A frame with a body of a length that a body may have is read whole, and
nothing behind it is looked at. -/
theorem read_frame {body : Bytes} (least : minBody ≤ body.length)
    (most : body.length ≤ maxBody) (rest : Bytes) :
    read (frame body ++ rest) = (Message.decode body, rest) := by
  have narrow : body.length < Nat.pow 256 headerSize := Nat.lt_of_le_of_lt most (by decide)
  have header : (bigEndian headerSize body.length).length = headerSize := length_bigEndian _ _
  have size := ofBigEndian_bigEndian narrow
  have taken : (frame body ++ rest).take headerSize = bigEndian headerSize body.length := by
    rw [frame, List.append_assoc, List.take_left' header]
  have left : (frame body ++ rest).drop headerSize = body ++ rest := by
    rw [frame, List.append_assoc, List.drop_left' header]
  unfold read
  simp only [List.splitAt_eq, taken, left, header, size, Nat.lt_irrefl, if_false,
    Nat.not_lt.mpr most, Nat.not_lt.mpr least, List.take_left, List.drop_left]

/-- A message that has a frame is read back, whatever comes behind the frame. -/
theorem read_encode {message : Message} {encoded : Bytes}
    (written : encode message = .ok encoded) (rest : Bytes) :
    read (encoded ++ rest) = (.ok message, rest) := by
  obtain ⟨most, rfl⟩ := (encode_eq_ok_iff message encoded).mp written
  rw [read_frame message.minBody_le_length_body most, Message.decode_body]

end Reckon.Wire
