/- Reckon.Proofs.Session.Alignment — which bytes are read as messages

A frame whose body has a length that bodies have is read to its end, whatever the
body spells, and an empty frame is refused with nothing of it left.  As long as the
frames of a stream are of these lengths every read begins where a frame begins, so
each message that is read is the whole body of a frame, and so is everything that a
client takes for an answer (`messages_are_whole_bodies`).

Any other frame is refused on sight of its length.  Its body stays in the stream,
and reading goes on with the body's first byte as if a frame began there
(`readAll_refused`).
-/
import Reckon.Proofs.Session.Script
import Reckon.Proofs.Wire.Outcome

namespace Reckon
set_option autoImplicit false

namespace Wire

/-! ## Frames that are read to their end -/

/-- A frame with a body of this length is read to its end. -/
def IsAligned (length : Nat) : Prop := length = 0 ∨ IsBodyLength length

instance (length : Nat) : Decidable (IsAligned length) := inferInstanceAs (Decidable (_ ∨ _))

/-- What the frame with a body is read as. -/
def received (body : Bytes) : Except WireFault Message :=
  if IsBodyLength body.length then Message.decode body else .error (refusal body.length)

theorem received_ne_closed (body : Bytes) : received body ≠ .error .closed := by
  unfold received
  split
  · exact decode_ne_closed body
  · exact fun closed => refusal_ne_closed body.length (Except.error.inj closed)

/-- Only a body that is decoded is read as a message. -/
theorem decode_of_received {body : Bytes} {message : Message}
    (read : received body = .ok message) : Message.decode body = .ok message := by
  unfold received at read
  split at read
  · exact read
  · cases read

theorem read_aligned {body : Bytes} (aligned : IsAligned body.length) (rest : Bytes) :
    read (frame body ++ rest) = (received body, rest) := by
  unfold received
  rcases aligned with none | within
  · obtain rfl : body = [] := List.length_eq_zero_iff.mp none
    exact (Outcome.refused (by decide) (by decide)).read
  · rw [if_pos within]
    exact (Outcome.taken within).read

/-- Frames that are read to their end are read one by one. -/
theorem readAll_aligned {bodies : List Bytes} (aligned : ∀ body ∈ bodies, IsAligned body.length)
    (rest : Bytes) :
    readAll (bodies.flatMap frame ++ rest) = bodies.map received ++ readAll rest := by
  induction bodies with
  | nil => rfl
  | cons body bodies ih =>
    obtain ⟨first, others⟩ := List.forall_mem_cons.mp aligned
    rw [List.flatMap_cons, List.append_assoc,
      readAll_of_read (read_aligned first _) (received_ne_closed body), ih others, List.map_cons,
      List.cons_append]

/-- A length that no body may have is refused, and what follows it is read on. -/
theorem readAll_refused {size : Nat} (narrow : size < Nat.pow 256 headerSize)
    (outside : ¬IsBodyLength size) (rest : Bytes) :
    readAll (bigEndian headerSize size ++ rest) = .error (refusal size) :: readAll rest :=
  readAll_of_read (Outcome.refused narrow outside).read fun closed =>
    refusal_ne_closed size (Except.error.inj closed)

/-! ## Reading again and again -/

theorem afterReads_nil (count : Nat) : afterReads count [] = [] := by
  induction count with
  | zero => rfl
  | succ count ih => rw [afterReads, ih, (Outcome.closed (by decide)).read]

/-- However often a stream was read before, what the next read answers is among all that reading
it to its end answers. -/
theorem read_afterReads_mem_readAll (count : Nat) (stream : Bytes) :
    (read (afterReads count stream)).1 ∈ readAll stream := by
  induction count generalizing stream with
  | zero => exact List.mem_of_head? (head?_readAll stream)
  | succ count ih =>
    rw [afterReads_succ]
    by_cases ended : (read stream).1 = .error .closed
    · -- A stream that is closed leaves nothing, and goes on being closed.
      have short := (read_eq_closed_iff stream).mp ended
      have closed := (Outcome.closed short).read
      rw [closed, afterReads_nil, readAll_of_closed closed]
      exact List.mem_singleton.mpr (congrArg Prod.fst (Outcome.closed (by decide)).read)
    · rw [readAll_of_read rfl ended]
      exact List.mem_cons_of_mem _ (ih (read stream).2)

end Wire

namespace Session.Client
open Wire

/-! ## Answers -/

section Answer
variable {script : Bytes} {expressions : List String}

/-- What comes of a call in a conversation is what comes of one call by a client that stands
behind some of the peer's messages. -/
theorem exists_call_of_mem_callAll (client : Client) {count : Nat}
    (stands : script.drop client.taken = afterReads count script)
    {result : Except WireFault Float}
    (member : result ∈ (client.callAll (scripted script) expressions).1) :
    (∃ sequence count', result = accept sequence (read (afterReads count' script)).1) ∨
      ∃ size, result = .error (.frameTooLarge size) := by
  induction expressions generalizing client count with
  | nil => cases member
  | cons expression expressions ih =>
    have member : result ∈ (client.call (scripted script) expression).1 ::
      ((client.call (scripted script) expression).2.callAll (scripted script) expressions).1 := member
    by_cases fits : CallFits expression
    · obtain ⟨accepted, -, left⟩ := call_scripted client script fits
      rw [stands] at accepted left
      have stands' : script.drop (client.call (scripted script) expression).2.taken =
          afterReads (count + 1) script := left
      rcases List.mem_cons.mp member with rfl | later
      · exact .inl ⟨client.next, count, accepted⟩
      · exact ih _ stands' later
    · rw [call_of_not_fits fits client (scripted script)] at member
      rcases List.mem_cons.mp member with rfl | later
      · exact .inr ⟨_, rfl⟩
      · exact ih { client with next := client.next + 1 } stands later

/-- A value is that of a reply which reading the peer's script finds. -/
theorem reply_of_mem_callAll {x : Float}
    (member : .ok x ∈ (fresh.callAll (scripted script) expressions).1) :
    ∃ sequence bits, .ok (.reply sequence bits) ∈ readAll script ∧ x = Float.ofBits bits := by
  have stands : script.drop fresh.taken = afterReads 0 script := rfl
  rcases exists_call_of_mem_callAll fresh stands member with
    ⟨sequence, count, accepted⟩ | ⟨size, large⟩
  · obtain ⟨bits, replied, same⟩ := (accept_eq_ok_iff _ _ _).mp accepted.symm
    exact ⟨sequence, bits, replied ▸ read_afterReads_mem_readAll count script, same⟩
  · cases large

/-- The other side's fault is that of an exception which reading the peer's script finds. -/
theorem exception_of_mem_callAll {kind : Fault.Kind} {message : String}
    (member : .error (.remote kind message) ∈ (fresh.callAll (scripted script) expressions).1) :
    ∃ sequence, .ok (.exception sequence kind message) ∈ readAll script := by
  have stands : script.drop fresh.taken = afterReads 0 script := rfl
  rcases exists_call_of_mem_callAll fresh stands member with
    ⟨sequence, count, accepted⟩ | ⟨size, large⟩
  · rcases received_of_accept_remote accepted.symm with thrown | garbled
    · exact ⟨sequence, thrown ▸ read_afterReads_mem_readAll count script⟩
    · exact absurd garbled (read_ne_remote _ kind message)
  · cases large

end Answer

/-- **Which bytes are read as messages.**  A stream of frames whose bodies are empty or have from
five to 65536 bytes is read frame by frame.  Each message that is read is the whole body of a
frame, and so is the reply or the exception from which a client takes a value or a fault of the
other side.  The first frame of another length is refused with only its prefix taken, and reading
goes on with the first byte of its body. -/
theorem messages_are_whole_bodies :
    (∀ bodies : List Bytes,
      (∀ body ∈ bodies, body.length = 0 ∨ 5 ≤ body.length ∧ body.length ≤ 65536) →
      let stream := bodies.flatMap frame
      readAll stream = bodies.map received ++ [.error .closed] ∧
        (∀ message, .ok message ∈ readAll stream →
          ∃ body ∈ bodies, Message.decode body = .ok message) ∧
        ∀ expressions : List String,
          let results := (fresh.callAll (scripted stream) expressions).1
          (∀ x, .ok x ∈ results → ∃ body ∈ bodies, ∃ sequence bits,
            Message.decode body = .ok (.reply sequence bits) ∧ x = Float.ofBits bits) ∧
          ∀ kind message, .error (.remote kind message) ∈ results →
            ∃ body ∈ bodies, ∃ sequence,
              Message.decode body = .ok (.exception sequence kind message)) ∧
      ∀ (bodies : List Bytes) (body rest : Bytes),
        (∀ earlier ∈ bodies, earlier.length = 0 ∨ 5 ≤ earlier.length ∧ earlier.length ≤ 65536) →
        0 < body.length → ¬(5 ≤ body.length ∧ body.length ≤ 65536) → body.length < 4294967296 →
        readAll (bodies.flatMap frame ++ (frame body ++ rest)) =
          bodies.map received ++ .error (refusal body.length) :: readAll (body ++ rest) := by
  constructor
  · intro bodies aligned stream
    have whole : readAll stream = bodies.map received ++ [.error .closed] := by
      have read := readAll_aligned aligned []
      rwa [List.append_nil, readAll_nil] at read
    have decoded (message : Message) (member : .ok message ∈ readAll stream) :
        ∃ body ∈ bodies, Message.decode body = .ok message := by
      rw [whole] at member
      rcases List.mem_append.mp member with among | closed
      · obtain ⟨body, inside, read⟩ := List.mem_map.mp among
        exact ⟨body, inside, decode_of_received read⟩
      · cases List.mem_singleton.mp closed
    refine ⟨whole, decoded, fun expressions =>
      ⟨fun x value => ?_, fun kind message thrown => ?_⟩⟩
    · obtain ⟨sequence, bits, member, same⟩ := reply_of_mem_callAll value
      obtain ⟨body, inside, reply⟩ := decoded _ member
      exact ⟨body, inside, sequence, bits, reply, same⟩
    · obtain ⟨sequence, member⟩ := exception_of_mem_callAll thrown
      obtain ⟨body, inside, exception⟩ := decoded _ member
      exact ⟨body, inside, sequence, exception⟩
  · intro bodies body rest aligned some outside narrow
    rw [readAll_aligned aligned, frame, List.append_assoc, readAll_refused narrow outside]

/-- Four calls take an empty frame, one that spells nothing, a reply and an exception; a frame of
two bytes is read on from its first byte. -/
theorem messages_behind_empty_frame :
    let reply : Message := .reply 2 0
    let exception : Message := .exception 3 .invalidPostfix "no"
    let bodies : List Bytes := [[], [7, 0, 0, 0, 0], reply.body, exception.body]
    let stream := bodies.flatMap frame
    let results := (fresh.callAll (scripted stream) ["1", "2", "3", "4"]).1
    (∀ body ∈ bodies, body.length = 0 ∨ 5 ≤ body.length ∧ body.length ≤ 65536) ∧
      .ok reply ∈ readAll stream ∧ (∃ body ∈ bodies, Message.decode body = .ok reply) ∧
      .ok (Float.ofBits 0) ∈ results ∧
      (∃ body ∈ bodies, ∃ sequence bits, Message.decode body = .ok (.reply sequence bits) ∧
        Float.ofBits 0 = Float.ofBits bits) ∧
      .error (.remote .invalidPostfix "no") ∈ results ∧
      (∃ body ∈ bodies, ∃ sequence,
        Message.decode body = .ok (.exception sequence .invalidPostfix "no")) ∧
      readAll (bodies.flatMap frame ++ (frame [0, 0] ++ [0, 5])) =
        bodies.map received ++ .error (refusal 2) :: readAll ([0, 0] ++ [0, 5]) := by
  intro reply exception bodies stream results
  have aligned : ∀ body ∈ bodies, body.length = 0 ∨ 5 ≤ body.length ∧ body.length ≤ 65536 := by
    decide
  obtain ⟨whole, decoded, answered⟩ := messages_are_whole_bodies.1 bodies aligned
  have read : .ok reply ∈ readAll stream := by
    rw [whole]
    have here : received reply.body = .ok reply := by cbv
    exact List.mem_append_left _ (here ▸ List.mem_map_of_mem (by simp [bodies]))
  have taken : results =
      [.error (.invalidFrame "body length 0 is shorter than 5"),
        .error (.invalidFrame "unknown message type 7"), .ok (Float.ofBits 0),
        .error (.remote .invalidPostfix "no")] := by
    simp only [results, stream, bodies, reply, exception]
    cbv
  have value : .ok (Float.ofBits 0) ∈ results := by rw [taken]; simp
  have thrown : .error (.remote .invalidPostfix "no") ∈ results := by rw [taken]; simp
  obtain ⟨values, faults⟩ := answered ["1", "2", "3", "4"]
  exact ⟨aligned, read, decoded reply read, value, values _ value, thrown, faults _ _ thrown,
    messages_are_whole_bodies.2 bodies [0, 0] [0, 5] aligned (by decide) (by decide) (by decide)⟩

/-- A message that is read need not be the body of a frame.  The first frame is refused for its
length and its body taken for a prefix, and in the end a reply is read that stands in the middle
of the second body. -/
theorem message_inside_body :
    ¬∀ bodies : List Bytes, (∀ body ∈ bodies, body.length < 4294967296) →
      ∀ message, .ok message ∈ readAll (bodies.flatMap frame) →
        ∃ body ∈ bodies, Message.decode body = .ok message := by
  intro wholes
  let reply : Message := .reply 2 4607182418800017408
  let bodies : List Bytes := [[0, 0, 0, 5], 9 :: frame reply.body]
  have small : ∀ body ∈ bodies, body.length < 4294967296 := by decide
  have aligned : ∀ body ∈ ([[0, 0, 0, 18, 9], reply.body] : List Bytes),
    IsAligned body.length := by decide
  -- The body of the first frame is the prefix of the next body that is read.
  have stream : bodies.flatMap frame = bigEndian headerSize 4 ++
      ([[0, 0, 0, 18, 9], reply.body].flatMap frame ++ []) := by
    simp only [bodies, reply]
    cbv
  have found : received reply.body = .ok reply := by cbv
  have read : .ok reply ∈ readAll (bodies.flatMap frame) := by
    rw [stream, readAll_refused (by decide) (by decide), readAll_aligned aligned, List.map_cons,
      List.map_singleton, found]
    simp
  obtain ⟨body, member, decoded⟩ := wholes bodies small reply read
  have refused : ∀ body ∈ bodies, ∀ message, Message.decode body ≠ .ok message := by
    have short : Message.decode [0, 0, 0, 5] =
        .error (.invalidFrame "body of 4 bytes is shorter than 5") := by cbv
    have unknown : Message.decode (9 :: frame reply.body) =
        .error (.invalidFrame "unknown message type 9") := by cbv
    simp [bodies, short, unknown]
  exact refused body member reply decoded

end Session.Client
end Reckon
