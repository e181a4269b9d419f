/- Reckon.Proofs.Wire.Outcome — what a read comes to

The front of a stream decides what a read answers and leaves: too little for a
length prefix, a prefix that no body may have, a body that is cut off, or a whole
frame (`Outcome`).  Each of the four is one equation of `read`, and there is no
fifth (`outcome_iff_read`).

So a stream that ends inside a body is told apart from one that ends between two
frames.  One that ends inside a prefix is not: it is taken for closed, whether one,
two or three bytes are left or none (`closed_iff_prefix_incomplete`).
-/
import Reckon.Proofs.Wire.Canonical
import Reckon.Proofs.Wire.Stream

namespace Reckon.Wire
set_option autoImplicit false

/-! ## One read -/

/-- The fault of a length that no body may have. -/
def refusal (size : Nat) : WireFault :=
  if maxBody < size then .frameTooLarge size
  else .invalidFrame ("body length " ++ size.repr ++ " is shorter than " ++ minBody.repr)

theorem refusal_ne_closed (size : Nat) : refusal size ≠ .closed := by
  unfold refusal
  split <;> nofun

/-- What is at the front of a stream, what a read of it answers and what it leaves. -/
inductive Outcome : (stream : Bytes) → Except WireFault Message → (rest : Bytes) → Prop where
  /-- Too little for a length prefix. -/
  | closed {stream : Bytes} (short : stream.length < headerSize) :
      Outcome stream (.error .closed) []
  /-- A length that no body may have.  Only the prefix is taken. -/
  | refused {size : Nat} {rest : Bytes} (narrow : size < Nat.pow 256 headerSize)
      (outside : ¬IsBodyLength size) :
      Outcome (bigEndian headerSize size ++ rest) (.error (refusal size)) rest
  /-- A body that is not all there. -/
  | cutOff {size : Nat} {part : Bytes} (within : IsBodyLength size) (short : part.length < size) :
      Outcome (bigEndian headerSize size ++ part) (.error (.io "early eof")) []
  /-- A frame. -/
  | taken {body rest : Bytes} (within : IsBodyLength body.length) :
      Outcome (frame body ++ rest) (Message.decode body) rest

/-- What is read behind a length prefix. -/
theorem read_sized {size : Nat} (narrow : size < Nat.pow 256 headerSize) (rest : Bytes) :
    read (bigEndian headerSize size ++ rest) =
      if IsBodyLength size then
        if rest.length < size then (.error (.io "early eof"), [])
        else (Message.decode (rest.take size), rest.drop size)
      else (.error (refusal size), rest) := by
  have header : (bigEndian headerSize size).length = headerSize := length_bigEndian _ _
  have spelled := ofBigEndian_bigEndian narrow
  unfold read refusal
  simp only [List.splitAt_eq, List.take_left' header, List.drop_left' header, header, spelled,
    Nat.lt_irrefl, if_false, List.length_take]
  by_cases large : maxBody < size
  · have outside : ¬IsBodyLength size := fun within => Nat.not_le.mpr large within.2
    rw [if_pos large, if_neg outside, if_pos large]
  by_cases small : size < minBody
  · have outside : ¬IsBodyLength size := fun within => Nat.not_le.mpr small within.1
    rw [if_neg large, if_pos small, if_neg outside, if_neg large]
  · have within : IsBodyLength size := ⟨Nat.not_lt.mp small, Nat.not_lt.mp large⟩
    have cut : min size rest.length < size ↔ rest.length < size := by omega
    rw [if_neg large, if_neg small, if_pos within]
    simp only [cut]

theorem narrow_of_isBodyLength {size : Nat} (within : IsBodyLength size) :
    size < Nat.pow 256 headerSize :=
  Nat.lt_of_le_of_lt within.2 (by decide)

/-- A stream that has a length prefix is that prefix and what follows it. -/
theorem exists_prefix {stream : Bytes} (long : headerSize ≤ stream.length) :
    ∃ size rest, size < Nat.pow 256 headerSize ∧ stream = bigEndian headerSize size ++ rest := by
  have width : (stream.take headerSize).length = headerSize := List.length_take_of_le long
  have narrow := ofBigEndian_lt (stream.take headerSize)
  have spelled := bigEndian_ofBigEndian (stream.take headerSize)
  rw [width] at narrow spelled
  exact ⟨_, stream.drop headerSize, narrow, by rw [spelled, List.take_append_drop]⟩

theorem Outcome.read {stream rest : Bytes} {result : Except WireFault Message}
    (outcome : Outcome stream result rest) : Wire.read stream = (result, rest) := by
  cases outcome with
  | closed short =>
    have header : (stream.take headerSize).length < headerSize := by
      rw [List.length_take]
      omega
    unfold Wire.read
    simp only [List.splitAt_eq, if_pos header]
  | refused narrow outside => rw [read_sized narrow, if_neg outside]
  | cutOff within short =>
    rw [read_sized (narrow_of_isBodyLength within), if_pos within, if_pos short]
  | taken within => exact read_frame within.1 within.2 rest

/-- Every read has one of the outcomes. -/
theorem outcome_read (stream : Bytes) : Outcome stream (read stream).1 (read stream).2 := by
  by_cases short : stream.length < headerSize
  · have closed := Outcome.closed short
    rwa [closed.read]
  obtain ⟨size, rest, narrow, rfl⟩ := exists_prefix (Nat.not_lt.mp short)
  rw [read_sized narrow]
  by_cases within : IsBodyLength size
  · rw [if_pos within]
    by_cases part : rest.length < size
    · rw [if_pos part]
      exact .cutOff within part
    · have whole : (rest.take size).length = size := List.length_take_of_le (Nat.not_lt.mp part)
      have framed : frame (rest.take size) ++ rest.drop size = bigEndian headerSize size ++ rest := by
        rw [frame, whole, List.append_assoc, List.take_append_drop]
      rw [if_neg part, ← framed]
      exact .taken (by rwa [whole])
  · rw [if_neg within]
    exact .refused narrow within

theorem outcome_iff_read {stream rest : Bytes} {result : Except WireFault Message} :
    Outcome stream result rest ↔ read stream = (result, rest) := by
  refine ⟨Outcome.read, fun received => ?_⟩
  have outcome := outcome_read stream
  rwa [received] at outcome

/-! ## The end of a stream -/

/-- A stream is closed where too little for a prefix is left. -/
theorem read_eq_closed_iff (stream : Bytes) :
    (read stream).1 = .error .closed ↔ stream.length < headerSize := by
  constructor
  · intro ended
    have outcome := outcome_read stream
    generalize (read stream).1 = result, (read stream).2 = rest at outcome ended
    cases outcome with
    | closed short => exact short
    | @refused size => exact absurd (Except.error.inj ended) (refusal_ne_closed size)
    | cutOff => cases ended
    | @taken body => exact absurd ended (decode_ne_closed body)
  · intro short
    rw [(Outcome.closed short).read]

/-- A frame that is cut off is read as the end of the stream if its prefix is not complete, and
as cut off if only its body is not. -/
theorem readAll_cut {body part missing : Bytes} (within : IsBodyLength body.length)
    (whole : frame body = part ++ missing) (some : missing ≠ []) :
    readAll part =
      if part.length < headerSize then [.error .closed]
      else [.error (.io "early eof"), .error .closed] := by
  by_cases short : part.length < headerSize
  · rw [if_pos short, readAll_of_closed (Outcome.closed short).read]
  rw [if_neg short]
  have header : (bigEndian headerSize body.length).length ≤ part.length := by
    rw [length_bigEndian]
    exact Nat.not_lt.mp short
  obtain ⟨front, rfl⟩ : bigEndian headerSize body.length <+: part :=
    List.prefix_of_prefix_length_le (List.prefix_append _ body) ⟨missing, whole.symm⟩ header
  rw [frame, List.append_assoc] at whole
  have cut : front.length < body.length := by
    rw [List.append_cancel_left whole, List.length_append]
    exact Nat.lt_add_of_pos_right (List.length_pos_of_ne_nil some)
  rw [readAll_of_read (Outcome.cutOff within cut).read (by simp), readAll_nil]

/-- **Where a stream is taken for closed.**  At every point that is reached by reading, the next
read answers "closed" if and only if less than a length prefix is left there.  So "closed" says that
nothing is left unless it is said inside a prefix, with one to three bytes there.  A stream that
ends inside a body is refused for the length that the prefix says, or the body is cut off.  Of
frames and the first part of one more, that part is read as the end if it is less than four bytes,
and as cut off otherwise. -/
theorem closed_iff_prefix_incomplete (stream : Bytes) (count : Nat) :
    let left := afterReads count stream
    ((read left).1 = .error .closed ↔ left.length < 4) ∧
      (((read left).1 = .error .closed ↔ left = []) ↔ ¬(1 ≤ left.length ∧ left.length ≤ 3)) ∧
      (∀ size part, left = bigEndian 4 size ++ part → size < 4294967296 → part.length < size →
        (read left).1 =
          .error (if 5 ≤ size ∧ size ≤ 65536 then .io "early eof" else refusal size)) ∧
      ∀ (bodies : List Bytes) (body part missing : Bytes), stream = bodies.flatMap frame ++ part →
        (∀ body' ∈ body :: bodies, 5 ≤ body'.length ∧ body'.length ≤ 65536) →
        frame body = part ++ missing → missing ≠ [] →
        readAll stream =
          bodies.map Message.decode ++
            if part.length < 4 then [.error .closed]
            else [.error (.io "early eof"), .error .closed] := by
  intro left
  have ended : (read left).1 = .error .closed ↔ left.length < 4 := read_eq_closed_iff left
  refine ⟨ended, ?_, fun size part same narrow short => ?_,
    fun bodies body part missing written within whole some => ?_⟩
  · rw [ended, ← List.length_eq_zero_iff]
    omega
  · have received : read (bigEndian 4 size ++ part) = _ := read_sized narrow part
    rw [same, received]
    by_cases within : 5 ≤ size ∧ size ≤ 65536
    · rw [if_pos (show IsBodyLength size from within), if_pos short, if_pos within]
    · rw [if_neg (show ¬IsBodyLength size from within), if_neg within]
  · obtain ⟨last, others⟩ := List.forall_mem_cons.mp within
    rw [written, readAll_frames others, readAll_cut last whole some]
    rfl

/-- Behind a call, three bytes of a prefix are taken for the end of the stream; with the prefix
and one byte of the body there, the frame is cut off. -/
theorem readAll_cut_behind_call :
    let body : Bytes := [1, 0, 0, 0, 7]
    (∀ body' ∈ [body, body], 5 ≤ body'.length ∧ body'.length ≤ 65536) ∧
      frame body = [0, 0, 0] ++ [5, 1, 0, 0, 0, 7] ∧
      frame body = [0, 0, 0, 5, 1] ++ [0, 0, 0, 7] ∧
      readAll ([body].flatMap frame ++ [0, 0, 0]) = [.ok (.call 7 ""), .error .closed] ∧
      readAll ([body].flatMap frame ++ [0, 0, 0, 5, 1]) =
        [.ok (.call 7 ""), .error (.io "early eof"), .error .closed] ∧
      afterReads 1 (frame body ++ [0, 1, 0, 1, 9]) = bigEndian 4 65537 ++ [9] ∧
      (read (afterReads 1 (frame body ++ [0, 1, 0, 1, 9]))).1 = .error (.frameTooLarge 65537) := by
  intro body
  have within : ∀ body' ∈ [body, body], 5 ≤ body'.length ∧ body'.length ≤ 65536 := by decide
  have decoded : [body].map Message.decode = [.ok (.call 7 "")] := by cbv
  have left : afterReads 1 (frame body ++ [0, 1, 0, 1, 9]) = bigEndian 4 65537 ++ [9] := by cbv
  have three : frame body = [0, 0, 0] ++ [5, 1, 0, 0, 0, 7] := by cbv
  have five : frame body = [0, 0, 0, 5, 1] ++ [0, 0, 0, 7] := by cbv
  obtain ⟨-, -, -, inPrefix⟩ := closed_iff_prefix_incomplete ([body].flatMap frame ++ [0, 0, 0]) 1
  obtain ⟨-, -, -, inBody⟩ :=
    closed_iff_prefix_incomplete ([body].flatMap frame ++ [0, 0, 0, 5, 1]) 1
  obtain ⟨-, -, refused, -⟩ := closed_iff_prefix_incomplete (frame body ++ [0, 1, 0, 1, 9]) 1
  have closed := inPrefix [body] body _ _ rfl within three (List.cons_ne_nil _ _)
  have cutOff := inBody [body] body _ _ rfl within five (List.cons_ne_nil _ _)
  rw [decoded] at closed cutOff
  exact ⟨within, three, five, closed, cutOff, left, refused 65537 [9] left (by decide) (by decide)⟩

/-- A stream that is taken for closed need not have come to its end: here three bytes of a
second prefix are left. -/
theorem closed_inside_prefix :
    ¬∀ (stream : Bytes) (count : Nat),
      (read (afterReads count stream)).1 = .error .closed ↔ afterReads count stream = [] := by
  intro clean
  have left : afterReads 1 (frame [1, 0, 0, 0, 7] ++ [0, 0, 0]) = [0, 0, 0] := by cbv
  have ended : (read [0, 0, 0]).1 = .error .closed := (read_eq_closed_iff _).mpr (by decide)
  have none := (clean (frame [1, 0, 0, 0, 7] ++ [0, 0, 0]) 1).mp (by rwa [left])
  rw [left] at none
  cases none

end Reckon.Wire
