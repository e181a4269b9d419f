/- Reckon.Proofs.Wire.Stream — frames one behind the other

A frame is taken whole, whatever its body spells, so the frames of a stream do
not disturb each other: reading a stream of frames decodes their bodies one by
one and then finds the end (`readAll_frames`).  Writing is the other side of
it.  A message that fits a frame is added as that frame, any other message
leaves nothing behind, and reading finds the messages that were written.

Of a stream of any bytes a read leaves an end (`read_suffix`), and what it takes is
never a fault of the other side unless a message says so (`read_ne_remote`).
-/
import Reckon.Proofs.Text.Ascii
import Reckon.Proofs.Wire.Codec

namespace Reckon.Wire
set_option autoImplicit false

/-! ## Reading to the end -/

/-- What is read first is what comes first, and reading goes on with the rest. -/
theorem readAll_of_read {stream rest : Bytes} {result : Except WireFault Message}
    (received : read stream = (result, rest)) (opened : result ≠ .error .closed) :
    readAll stream = result :: readAll rest := by
  rw [readAll]
  split
  · rename_i message after same
    rw [received] at same
    cases same
    rfl
  · rename_i fault after same
    rw [received] at same
    cases same
    exact dif_neg fun ended : fault = .closed => opened (congrArg Except.error ended)

/-- Reading ends where the stream is closed. -/
theorem readAll_of_closed {stream rest : Bytes}
    (received : read stream = (.error .closed, rest)) :
    readAll stream = [.error .closed] := by
  rw [readAll]
  split
  · rename_i message after same
    rw [received] at same
    cases same
  · rename_i fault after same
    rw [received] at same
    cases same
    rfl

theorem head?_readAll (stream : Bytes) : (readAll stream).head? = some (read stream).1 := by
  by_cases ended : (read stream).1 = .error .closed
  · rw [readAll_of_closed (Prod.ext ended rfl), ended]
    rfl
  · rw [readAll_of_read rfl ended]
    rfl

theorem readAll_nil : readAll [] = [.error .closed] := readAll_of_closed rfl

/-- A body of a length that a body may have. -/
def IsBodyLength (length : Nat) : Prop := minBody ≤ length ∧ length ≤ maxBody

instance (length : Nat) : Decidable (IsBodyLength length) :=
  inferInstanceAs (Decidable (_ ∧ _))

/-- Frames are read to the end of the last, each as what its body is decoded to. -/
theorem readAll_frames {bodies : List Bytes} (within : ∀ body ∈ bodies, IsBodyLength body.length)
    (rest : Bytes) :
    readAll (bodies.flatMap frame ++ rest) = bodies.map Message.decode ++ readAll rest := by
  induction bodies with
  | nil => rfl
  | cons body bodies ih =>
    obtain ⟨⟨least, most⟩, others⟩ := List.forall_mem_cons.mp within
    rw [List.flatMap_cons, List.append_assoc,
      readAll_of_read (read_frame least most _) (decode_ne_closed body), ih others,
      List.map_cons, List.cons_append]

/-! ## What reading leaves -/

/-- Reading takes a part off the front of a stream and leaves the rest. -/
theorem read_suffix (stream : Bytes) : (read stream).2 <:+ stream := by
  unfold read
  simp only [List.splitAt_eq]
  have behind : stream.drop headerSize <:+ stream := List.drop_suffix _ _
  split
  · exact List.nil_suffix
  split
  · exact behind
  split
  · exact behind
  split
  · exact List.nil_suffix
  · exact (List.drop_suffix _ _).trans behind

/-- What is left of a stream behind so many messages. -/
def afterReads : Nat → Bytes → Bytes
  | 0, stream => stream
  | count + 1, stream => (read (afterReads count stream)).2

theorem afterReads_succ (count : Nat) (stream : Bytes) :
    afterReads (count + 1) stream = afterReads count (read stream).2 := by
  induction count with
  | zero => rfl
  | succ count ih => rw [afterReads, ih, afterReads]

/-- A body that is not decoded is blamed for its form. -/
theorem decode_eq_error {body : Bytes} {fault : WireFault}
    (failed : Message.decode body = .error fault) : ∃ reason, fault = .invalidFrame reason := by
  have text (payload : Bytes) (build : String → Message)
      (failed : (Message.payloadText payload).map build = .error fault) :
      ∃ reason, fault = .invalidFrame reason := by
    unfold Message.payloadText at failed
    split at failed <;> cases failed
    exact ⟨_, rfl⟩
  unfold Message.decode at failed
  simp only [List.splitAt_eq] at failed
  split at failed
  · split at failed
    · exact text _ _ failed
    · unfold Message.decodeReply at failed
      split at failed <;> cases failed
      exact ⟨_, rfl⟩
    · unfold Message.decodeException at failed
      split at failed
      · cases failed
        exact ⟨_, rfl⟩
      · split at failed
        · cases failed
          exact ⟨_, rfl⟩
        · exact text _ _ failed
    · cases failed
      exact ⟨_, rfl⟩
  · cases failed
    exact ⟨_, rfl⟩

/-- No stream is read as another side's fault: that takes a message. -/
theorem read_ne_remote (stream : Bytes) (kind : Fault.Kind) (message : String) :
    (read stream).1 ≠ .error (.remote kind message) := by
  intro failed
  unfold read at failed
  simp only [List.splitAt_eq] at failed
  split at failed
  · cases failed
  split at failed
  · cases failed
  split at failed
  · cases failed
  split at failed
  · cases failed
  · obtain ⟨reason, same⟩ := decode_eq_error failed
    cases same

/-! ## Writing -/

/-- The message's body fits a frame. -/
def Message.Fits (message : Message) : Prop := message.body.length ≤ maxBody

instance (message : Message) : Decidable message.Fits := inferInstanceAs (Decidable (_ ≤ _))

section Write
variable {message : Message}

theorem encode_of_fits (fits : message.Fits) : encode message = .ok (frame message.body) :=
  (encode_eq_ok_iff _ _).mpr ⟨fits, rfl⟩

theorem encode_of_not_fits (large : ¬message.Fits) :
    encode message = .error (.frameTooLarge message.body.length) :=
  if_pos (Nat.not_le.mp large)

theorem encode_isOk (message : Message) : (encode message).isOk = decide message.Fits := by
  by_cases fits : message.Fits
  · rw [encode_of_fits fits, decide_eq_true fits]
    rfl
  · rw [encode_of_not_fits fits, decide_eq_false fits]
    rfl

theorem write_of_fits (fits : message.Fits) (written : Bytes) :
    write written message = (.ok (), written ++ frame message.body) := by
  simp [write, encode_of_fits fits]

/-- A message that fits no frame leaves what is written as it was. -/
theorem write_of_not_fits (large : ¬message.Fits) (written : Bytes) :
    write written message = (.error (.frameTooLarge message.body.length), written) := by
  simp [write, encode_of_not_fits large]

/-- What is written is the frames of the messages that have one. -/
theorem writeAll_written (written : Bytes) (messages : List Message) :
    (writeAll written messages).2 =
      written ++ ((messages.filter (·.Fits)).map Message.body).flatMap frame := by
  induction messages generalizing written with
  | nil => simp [writeAll]
  | cons message messages ih =>
    by_cases fits : message.Fits
    · simp [writeAll, write_of_fits fits, ih, fits]
    · simp [writeAll, write_of_not_fits fits, ih, fits]

/-- The messages whose writing succeeded are the ones that fit a frame. -/
theorem writeAll_succeeded (written : Bytes) (messages : List Message) :
    ((messages.zip (writeAll written messages).1).filter (·.2.isOk)).map Prod.fst =
      messages.filter (·.Fits) := by
  induction messages generalizing written with
  | nil => rfl
  | cons message messages ih =>
    have success : (.ok () : Except WireFault Unit).isOk = true := rfl
    have failure (fault : WireFault) : (.error fault : Except WireFault Unit).isOk = false := rfl
    by_cases fits : message.Fits
    · simp [writeAll, write_of_fits fits, ih, fits, success]
    · simp [writeAll, write_of_not_fits fits, ih, fits, failure]

theorem length_writeAll (written : Bytes) (messages : List Message) :
    (writeAll written messages).1.length = messages.length := by
  induction messages generalizing written with
  | nil => rfl
  | cons message messages ih => simp [writeAll, ih]

end Write

/-! ## Both ways -/

/-- The frames of messages are read as the messages. -/
theorem readAll_messages {messages : List Message} (fit : ∀ message ∈ messages, message.Fits) :
    readAll ((messages.map Message.body).flatMap frame) =
      messages.map .ok ++ [.error .closed] := by
  have within : ∀ body ∈ messages.map Message.body, IsBodyLength body.length := by
    intro body member
    obtain ⟨message, among, rfl⟩ := List.mem_map.mp member
    exact ⟨message.minBody_le_length_body, fit message among⟩
  have whole := readAll_frames within []
  rw [List.append_nil, readAll_nil] at whole
  rw [whole, List.map_map]
  simp [Message.decode_body, Function.comp_def]

/-- **Frames do not disturb each other.**  Reading a stream of frames decodes every
body in its turn, whether it spells a message or not, and then finds the end.  A
message that has no frame leaves what is written as it was, and reading what was
written one by one gives back the messages whose writing succeeded. -/
theorem readAll_frames_writeAll :
    (∀ bodies : List Bytes, (∀ body ∈ bodies, 5 ≤ body.length ∧ body.length ≤ 65536) →
      readAll (bodies.flatMap fun body => bigEndian 4 body.length ++ body) =
        bodies.map Message.decode ++ [.error .closed]) ∧
      (∀ written message fault, encode message = .error fault →
        write written message = (.error fault, written)) ∧
      ∀ messages : List Message,
        let results := (writeAll [] messages).1
        let written := (writeAll [] messages).2
        results.length = messages.length ∧
          readAll written =
            ((messages.zip results).filter (·.2.isOk)).map (fun pair => .ok pair.1) ++
              [.error .closed] := by
  refine ⟨fun bodies within => ?_, fun written message fault refused => ?_, fun messages => ?_⟩
  · have whole := readAll_frames within []
    rwa [List.append_nil, readAll_nil] at whole
  · rw [write, refused]
  · intro results written
    refine ⟨length_writeAll [] messages, ?_⟩
    have fit : ∀ message ∈ messages.filter (·.Fits), message.Fits := by
      intro message member
      simpa using (List.mem_filter.mp member).2
    have bodies : written = ((messages.filter (·.Fits)).map Message.body).flatMap frame :=
      writeAll_written [] messages
    rw [bodies, readAll_messages fit, ← writeAll_succeeded [] messages, List.map_map]
    rfl

/-- A body that spells nothing stands between two calls that are read, and a call one byte too
long for a frame between two that are written. -/
theorem readAll_between_calls :
    (∀ body ∈ ([[1, 0, 0, 0, 1, 49], [7, 0, 0, 0, 0], [1, 0, 0, 0, 2, 50]] : List Bytes),
      5 ≤ body.length ∧ body.length ≤ 65536) ∧
    readAll (([[1, 0, 0, 0, 1, 49], [7, 0, 0, 0, 0], [1, 0, 0, 0, 2, 50]] : List Bytes).flatMap
        fun body => bigEndian 4 body.length ++ body) =
      [.ok (.call 1 "1"), .error (.invalidFrame "unknown message type 7"), .ok (.call 2 "2"),
        .error .closed] ∧
    let overlong : Message := .call 3 (String.ofList (List.replicate 65532 '3'))
    encode overlong = .error (.frameTooLarge 65537) ∧
      (∀ written, write written overlong = (.error (.frameTooLarge 65537), written)) ∧
      readAll (writeAll [] [.call 1 "1", overlong, .call 2 "2"]).2 =
        [.ok (.call 1 "1"), .ok (.call 2 "2"), .error .closed] := by
  have within : ∀ body ∈
      ([[1, 0, 0, 0, 1, 49], [7, 0, 0, 0, 0], [1, 0, 0, 0, 2, 50]] : List Bytes),
      5 ≤ body.length ∧ body.length ≤ 65536 := by decide
  have decoded : ([[1, 0, 0, 0, 1, 49], [7, 0, 0, 0, 0], [1, 0, 0, 0, 2, 50]] : List Bytes).map
      Message.decode = [.ok (.call 1 "1"), .error (.invalidFrame "unknown message type 7"),
        .ok (.call 2 "2")] := by cbv
  -- For any message in the middle: this one is far too long to be looked at.
  have readBack (middle : Message) (large : ¬middle.Fits) :
      readAll (writeAll [] [.call 1 "1", middle, .call 2 "2"]).2 =
        [.ok (.call 1 "1"), .ok (.call 2 "2"), .error .closed] := by
    obtain ⟨-, read⟩ := readAll_frames_writeAll.2.2 [.call 1 "1", middle, .call 2 "2"]
    have first : Message.Fits (.call 1 "1") := by decide
    have last : Message.Fits (.call 2 "2") := by decide
    have results : (writeAll [] [.call 1 "1", middle, .call 2 "2"]).1 =
        [.ok (), .error (.frameTooLarge middle.body.length), .ok ()] := by
      simp only [writeAll, write_of_fits first, write_of_not_fits large, write_of_fits last]
    rw [read, results]
    rfl
  refine ⟨within, ?_, ?_⟩
  · rw [readAll_frames_writeAll.1 _ within, decoded]
    rfl
  · intro overlong
    have size : overlong.body.length = 65537 := by
      rw [Message.length_body_call, String.utf8ByteSize_ofList, Text.utf8Len_replicate rfl]
    have large : ¬overlong.Fits := by
      rw [Message.Fits, size]
      decide
    have refused : encode overlong = .error (.frameTooLarge 65537) := by
      rw [encode_of_not_fits large, size]
    exact ⟨refused, fun buffer => readAll_frames_writeAll.2.1 buffer _ _ refused,
      readBack overlong large⟩

end Reckon.Wire
