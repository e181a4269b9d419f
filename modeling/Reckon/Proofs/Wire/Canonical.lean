/- Reckon.Proofs.Wire.Canonical — a message has one body

Nothing is lost in decoding: a body that is decoded at all is the body of the
message it is decoded to (`body_of_decode`).  Each field is the one way of
writing what is read from it: bytes are the number they spell, written at their
own width (`bigEndian_ofBigEndian`), a kind has one code, and a text one
spelling in UTF-8.  With `decode_body` this makes decoding and encoding inverse
to each other on all bodies that fit a frame.
-/
import Reckon.Proofs.Wire.Codec

namespace Reckon.Wire
set_option autoImplicit false

/-! ## Numbers -/

theorem ofBigEndian_lt (bytes : Bytes) : ofBigEndian bytes < Nat.pow 256 bytes.length := by
  induction bytes using List.reverseRecOn with
  | nil => exact Nat.one_pos
  | append_singleton bytes byte ih =>
    have low := byte.toNat_lt
    have wider : Nat.pow 256 (bytes.length + 1) = Nat.pow 256 bytes.length * 256 := rfl
    rw [ofBigEndian_concat, List.length_append, List.length_singleton, wider]
    omega

/-- Bytes are the number they spell, written at their own width. -/
theorem bigEndian_ofBigEndian (bytes : Bytes) :
    bigEndian bytes.length (ofBigEndian bytes) = bytes := by
  induction bytes using List.reverseRecOn with
  | nil => rfl
  | append_singleton bytes byte ih =>
    have low := byte.toNat_lt
    have high : (ofBigEndian bytes * 256 + byte.toNat) / 256 = ofBigEndian bytes := by omega
    have last : (ofBigEndian bytes * 256 + byte.toNat) % 256 = byte.toNat := by omega
    rw [ofBigEndian_concat, List.length_append, List.length_singleton, bigEndian, high, last, ih,
      UInt8.ofNat_toNat]

/-- A field of four bytes is its number of 32 bits. -/
theorem bigEndian_toUInt32 {field : Bytes} (width : field.length = 4) :
    bigEndian 4 (UInt32.ofNat (ofBigEndian field)).toNat = field := by
  have fits : ofBigEndian field < UInt32.size := by
    have bound := ofBigEndian_lt field
    rw [width] at bound
    exact bound
  rw [UInt32.toNat_ofNat_of_lt' fits, ← width, bigEndian_ofBigEndian]

/-- A field of eight bytes is its number of 64 bits. -/
theorem bigEndian_toUInt64 {field : Bytes} (width : field.length = 8) :
    bigEndian 8 (UInt64.ofNat (ofBigEndian field)).toNat = field := by
  have fits : ofBigEndian field < UInt64.size := by
    have bound := ofBigEndian_lt field
    rw [width] at bound
    exact bound
  rw [UInt64.toNat_ofNat_of_lt' fits, ← width, bigEndian_ofBigEndian]

/-! ## Payloads -/

namespace Message
variable {payload : Bytes} {sequence : UInt32} {message : Message}

theorem payload_of_payloadText {build : String → Message}
    (decoded : (payloadText payload).map build = .ok message) :
    ∃ text, message = build text ∧ ofText text = payload := by
  unfold payloadText at decoded
  split at decoded
  · rename_i text spelled
    cases decoded
    exact ⟨text, rfl, ofText_of_toText? spelled⟩
  · cases decoded

theorem payload_of_decodeReply (decoded : decodeReply sequence payload = .ok message) :
    ∃ bits, message = .reply sequence bits ∧ bigEndian 8 bits.toNat = payload := by
  unfold decodeReply at decoded
  split at decoded
  · rename_i width
    cases decoded
    exact ⟨_, rfl, bigEndian_toUInt64 width⟩
  · cases decoded

theorem payload_of_decodeException (decoded : decodeException sequence payload = .ok message) :
    ∃ kind text, message = .exception sequence kind text ∧ kind.code :: ofText text = payload := by
  unfold decodeException at decoded
  split at decoded
  · cases decoded
  · split at decoded
    · cases decoded
    · rename_i kind known
      obtain ⟨text, rfl, spelled⟩ := payload_of_payloadText decoded
      exact ⟨kind, text, rfl, by rw [Fault.Kind.code_of_ofCode? known, spelled]⟩

/-! ## Bodies -/

/-- A body that is decoded is the body of what it is decoded to. -/
theorem body_of_decode {body : Bytes} (decoded : decode body = .ok message) :
    message.body = body := by
  unfold decode at decoded
  simp only [List.splitAt_eq] at decoded
  split at decoded
  · rename_i type a b c d head
    have whole : [type, a, b, c, d] ++ body.drop minBody = body := by
      rw [← head, List.take_append_drop]
    have sequence : bigEndian 4 (UInt32.ofNat (ofBigEndian [a, b, c, d])).toNat = [a, b, c, d] :=
      bigEndian_toUInt32 rfl
    rw [List.cons_append] at whole
    split at decoded
    case h_1 call =>
      obtain rfl : type = 1 := UInt8.toNat_inj.mp call
      obtain ⟨text, rfl, spelled⟩ := payload_of_payloadText decoded
      rw [Message.body, sequence, spelled]
      exact whole
    case h_2 reply =>
      obtain rfl : type = 2 := UInt8.toNat_inj.mp reply
      obtain ⟨bits, rfl, spelled⟩ := payload_of_decodeReply decoded
      rw [Message.body, sequence, spelled]
      exact whole
    case h_3 exception =>
      obtain rfl : type = 3 := UInt8.toNat_inj.mp exception
      obtain ⟨kind, text, rfl, spelled⟩ := payload_of_decodeException decoded
      rw [Message.body, sequence, spelled]
      exact whole
    case h_4 => cases decoded
  · cases decoded

theorem body_injective : Function.Injective Message.body := by
  intro first second same
  have decoded := decode_body first
  rw [same, decode_body] at decoded
  exact (Except.ok.inj decoded).symm

end Message

/-! ## Frames -/

/-- A message is read off a stream exactly if the stream starts with its frame. -/
theorem read_eq_ok_iff (stream rest : Bytes) (message : Message) :
    read stream = (.ok message, rest) ↔
      ∃ encoded, encode message = .ok encoded ∧ stream = encoded ++ rest := by
  constructor
  · intro received
    unfold read at received
    simp only [List.splitAt_eq] at received
    generalize start : stream.take headerSize = header at received
    generalize behind : stream.drop headerSize = after at received
    generalize announced : ofBigEndian header = size at received
    split at received
    · cases received
    rename_i long
    split at received
    · cases received
    rename_i most
    split at received
    · cases received
    split at received
    · cases received
    rename_i complete
    obtain ⟨decoded, rfl⟩ := Prod.mk.inj received
    have width : header.length = headerSize := by
      rw [← start, List.length_take] at long ⊢
      omega
    have spelled : bigEndian headerSize size = header := by
      rw [← announced, ← width, bigEndian_ofBigEndian]
    have length : (after.take size).length = size := by
      rw [List.length_take] at complete ⊢
      omega
    refine ⟨frame (after.take size), (encode_eq_ok_iff _ _).mpr ?_, ?_⟩
    · rw [Message.body_of_decode decoded, length]
      exact ⟨Nat.not_lt.mp most, rfl⟩
    · rw [frame, length, spelled, List.append_assoc, List.take_append_drop, ← start, ← behind,
        List.take_append_drop]
  · rintro ⟨encoded, written, rfl⟩
    exact read_encode written rest

/-- **Decoding and encoding are inverse to each other.**  A body of a length that a
body may have is decoded to a message if and only if the message's frame is that
body behind its length.  Every frame is of this form, so it is decoded again; and
no two messages have the same body, whether it fits a frame or not. -/
theorem decode_eq_ok_iff_encode (message : Message) :
    (∀ body : Bytes, body.length ≤ 65536 →
      (Message.decode body = .ok message ↔
        encode message = .ok (bigEndian 4 body.length ++ body))) ∧
      (∀ encoded, encode message = .ok encoded →
        ∃ body : Bytes, body.length ≤ 65536 ∧ encoded = bigEndian 4 body.length ++ body ∧
          Message.decode body = .ok message) ∧
      ∀ other : Message, other.body = message.body → other = message := by
  refine ⟨fun body most => ⟨fun decoded => ?_, fun written => ?_⟩, fun encoded written => ?_,
    fun _ same => Message.body_injective same⟩
  · obtain rfl := Message.body_of_decode decoded
    exact (encode_eq_ok_iff _ _).mpr ⟨most, rfl⟩
  · -- Both bodies stand behind four bytes of length, so they are the same.
    obtain ⟨-, same⟩ := (encode_eq_ok_iff _ _).mp written
    have bodies := List.append_inj_right same (by simp [headerSize])
    rw [bodies, Message.decode_body]
  · obtain ⟨most, rfl⟩ := (encode_eq_ok_iff _ _).mp written
    exact ⟨message.body, most, rfl, Message.decode_body message⟩

/-- An exception's body is decoded to it and is what its frame holds. -/
theorem decode_exception_iff_encode :
    let body : Bytes := [3, 0, 0, 1, 2, 4, 110, 111]
    let exception : Message := .exception 258 .invalidPostfix "no"
    body.length ≤ 65536 ∧ Message.decode body = .ok exception ∧
      encode exception = .ok ([0, 0, 0, 8] ++ body) ∧
      ∀ other : Message, other.body = exception.body → other = exception := by
  intro body exception
  have most : body.length ≤ 65536 := by decide
  have header : bigEndian 4 body.length = [0, 0, 0, 8] := by decide
  have decoded : Message.decode body = .ok exception := by cbv
  obtain ⟨inverse, -, alone⟩ := decode_eq_ok_iff_encode exception
  exact ⟨most, decoded, header ▸ (inverse body most).mp decoded, alone⟩

end Reckon.Wire
