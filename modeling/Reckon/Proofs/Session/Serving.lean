/- Reckon.Proofs.Session.Serving — what a server answers

A server answers the calls that a stream opens with.  The first message that is
no call, or cannot be read, ends that, and so does an answer that fits no frame
(`serve_eq_frames`).  What stands behind this point has no say in the output.
What may still arrive behind the stream has one only at the end of the output: a
message that was read is read again however the stream goes on, so an answer
that was given stays (`serve_append`).
-/
import Reckon.Session.Server
import Reckon.Proofs.Wire.Canonical
import Reckon.Proofs.Wire.Stream

namespace Reckon.Session
set_option autoImplicit false

open Wire

/-! ## One call -/

section Call
variable {stream rest : Bytes} {sequence : UInt32} {expression : String}

theorem sequence_answer (sequence : UInt32) (expression : String) :
    (answer sequence expression).sequence = sequence := by
  unfold answer
  cases calculate expression <;> rfl

/-- A call that is read is answered, unless its answer fits no frame. -/
theorem serve_of_call (received : read stream = (.ok (.call sequence expression), rest)) :
    serve stream =
      if (answer sequence expression).Fits then
        frame (answer sequence expression).body ++ serve rest
      else [] := by
  rw [serve]
  split
  · rename_i found sought after same
    rw [received] at same
    cases same
    by_cases fits : (answer sequence expression).Fits
    · simp [encode_of_fits fits, fits]
    · simp [encode_of_not_fits fits, fits]
  · rename_i other
    exact absurd received (other _ _ _)

/-- Nothing else is answered. -/
theorem serve_of_no_call
    (other : ∀ sequence expression rest,
      read stream ≠ (.ok (.call sequence expression), rest)) : serve stream = [] := by
  rw [serve]
  split
  · rename_i received
    exact absurd received (other _ _ _)
  · rfl

end Call

/-! ## The calls that a stream opens with -/

/-- The calls at the front of what was read. -/
def leadingCalls : List (Except WireFault Message) → List (UInt32 × String)
  | .ok (.call sequence expression) :: results =>
      (sequence, expression) :: leadingCalls results
  | _ => []

/-- What reading answers where it finds a call. -/
def received (call : UInt32 × String) : Except WireFault Message := .ok (.call call.1 call.2)

/-- The leading calls are the longest run of calls there is. -/
theorem leadingCalls_eq_iff (results : List (Except WireFault Message))
    (calls : List (UInt32 × String)) :
    leadingCalls results = calls ↔
      ∃ rest, results = calls.map received ++ rest ∧
        ∀ call, rest.head? ≠ some (received call) := by
  constructor
  · rintro rfl
    fun_induction leadingCalls results with
    | case1 sequence expression results ih =>
      obtain ⟨rest, whole, ends⟩ := ih
      exact ⟨rest, congrArg (.ok (.call sequence expression) :: ·) whole, ends⟩
    | case2 results other =>
      refine ⟨results, rfl, fun call first => ?_⟩
      obtain ⟨after, rfl⟩ := List.head?_eq_some_iff.mp first
      exact other call.1 call.2 after rfl
  · rintro ⟨rest, rfl, ends⟩
    induction calls with
    | nil =>
      unfold leadingCalls
      split
      · rename_i sequence expression results same
        exact absurd (congrArg List.head? same) (ends (sequence, expression))
      · rfl
    | cons call calls ih => exact congrArg (call :: ·) ih

theorem leadingCalls_of_call {stream rest : Bytes} {sequence : UInt32} {expression : String}
    (received : read stream = (.ok (.call sequence expression), rest)) :
    leadingCalls (readAll stream) = (sequence, expression) :: leadingCalls (readAll rest) := by
  rw [readAll_of_read received (by simp), leadingCalls]

theorem leadingCalls_of_no_call {stream : Bytes}
    (other : ∀ sequence expression rest,
      read stream ≠ (.ok (.call sequence expression), rest)) :
    leadingCalls (readAll stream) = [] := by
  refine (leadingCalls_eq_iff _ _).mpr ⟨readAll stream, rfl, fun call first => ?_⟩
  rw [head?_readAll] at first
  exact other call.1 call.2 (read stream).2 (Prod.ext (Option.some.inj first) rfl)

/-! ## The output -/

/-- The answers to calls, up to the first that fits no frame. -/
def answersTo (calls : List (UInt32 × String)) : List Message :=
  (calls.map fun call => answer call.1 call.2).takeWhile (·.Fits)

theorem fits_of_mem_answersTo {calls : List (UInt32 × String)} {message : Message}
    (member : message ∈ answersTo calls) : message.Fits := by
  simpa using List.mem_takeWhile_imp member

/-- The answers carry the ids of the calls, one by one. -/
theorem map_sequence_answersTo (calls : List (UInt32 × String)) :
    (answersTo calls).map Message.sequence =
      (calls.map Prod.fst).take (answersTo calls).length := by
  have front : answersTo calls =
      (calls.map fun call => answer call.1 call.2).take (answersTo calls).length :=
    List.prefix_iff_eq_take.mp (List.takeWhile_prefix _)
  rw [front, List.map_take, List.map_map, ← front]
  exact congrArg (List.take _) (List.map_congr_left fun call _ => sequence_answer _ _)

/-- The output is the frames of the answers to the leading calls. -/
theorem serve_eq_frames (stream : Bytes) :
    serve stream =
      ((answersTo (leadingCalls (readAll stream))).map Message.body).flatMap frame := by
  by_cases opens : ∃ sequence expression rest,
      read stream = (.ok (.call sequence expression), rest)
  · obtain ⟨sequence, expression, rest, received⟩ := opens
    have shorter := length_rest_lt received (by simp)
    have ih := serve_eq_frames rest
    rw [serve_of_call received, leadingCalls_of_call received]
    by_cases fits : (answer sequence expression).Fits
    · rw [if_pos fits, ih]
      simp [answersTo, fits]
    · rw [if_neg fits]
      simp [answersTo, fits]
  · push Not at opens
    rw [serve_of_no_call opens, leadingCalls_of_no_call opens]
    rfl
termination_by stream.length

/-- The output is read back as the answers. -/
theorem readAll_serve (stream : Bytes) :
    readAll (serve stream) =
      (answersTo (leadingCalls (readAll stream))).map .ok ++ [.error .closed] := by
  rw [serve_eq_frames, readAll_messages fun _ => fits_of_mem_answersTo]

/-- Whatever arrives behind a stream is answered behind the stream's own answers. -/
theorem serve_append (stream more : Bytes) : serve stream <+: serve (stream ++ more) := by
  by_cases opens : ∃ sequence expression rest,
      read stream = (.ok (.call sequence expression), rest)
  · obtain ⟨sequence, expression, rest, received⟩ := opens
    have shorter := length_rest_lt received (by simp)
    have ih := serve_append rest more
    have further : read (stream ++ more) = (.ok (.call sequence expression), rest ++ more) := by
      obtain ⟨encoded, written, rfl⟩ := (read_eq_ok_iff _ _ _).mp received
      rw [List.append_assoc]
      exact read_encode written _
    rw [serve_of_call received, serve_of_call further]
    split
    · exact (List.prefix_append_right_inj _).mpr ih
    · exact List.nil_prefix
  · push Not at opens
    rw [serve_of_no_call opens]
    exact List.nil_prefix
termination_by stream.length

/-- **A server answers the calls that a stream opens with.**  Its output is the frames
of their answers, in order and up to the first that fits no frame; it is read back as
these answers, which carry the ids of the calls.  A stream that opens with the same
calls and goes on in any other way has the same output, and a stream that goes on
behind its end keeps the output it had. -/
theorem serve_answers_leading_calls (stream : Bytes) :
    ∃ (calls : List (UInt32 × String)) (rest : List (Except WireFault Message)),
      let answers := (calls.map fun call => answer call.1 call.2).takeWhile
        fun message => (encode message).isOk
      readAll stream = calls.map received ++ rest ∧
        (∀ call, rest.head? ≠ some (received call)) ∧
        serve stream = answers.flatMap (fun message => frame message.body) ∧
        readAll (serve stream) = answers.map .ok ++ [.error .closed] ∧
        answers.map Message.sequence = (calls.map Prod.fst).take answers.length ∧
        (∀ other rest', readAll other = calls.map received ++ rest' →
          (∀ call, rest'.head? ≠ some (received call)) → serve other = serve stream) ∧
        ∀ more, serve stream <+: serve (stream ++ more) := by
  obtain ⟨rest, whole, ends⟩ := (leadingCalls_eq_iff (readAll stream) _).mp rfl
  refine ⟨leadingCalls (readAll stream), rest, ?_⟩
  intro answers
  have cut : answers = answersTo (leadingCalls (readAll stream)) := by
    simp only [answers, answersTo, encode_isOk]
  rw [cut]
  refine ⟨whole, ends, ?_, readAll_serve stream, map_sequence_answersTo _, ?_,
    serve_append stream⟩
  · rw [serve_eq_frames, List.flatMap_map]
  · intro other rest' whole' ends'
    have same := (leadingCalls_eq_iff (readAll other) _).mpr ⟨rest', whole', ends'⟩
    rw [serve_eq_frames other, same, ← serve_eq_frames stream]

/-- A body of no known type keeps the call behind it from being answered. -/
theorem serve_unknown_type :
    let first : Message := .call 7 "1"
    let stream := [first.body, [9, 0, 0, 0, 1], (Message.call 8 "2").body].flatMap frame
    let other := [first.body].flatMap frame
    readAll stream = [received (7, "1"), .error (.invalidFrame "unknown message type 9"),
      received (8, "2"), .error .closed] ∧
    readAll other = [received (7, "1"), .error .closed] ∧ serve other = serve stream := by
  intro first stream other
  have within : ∀ body ∈ [first.body, [9, 0, 0, 0, 1], (Message.call 8 "2").body],
      IsBodyLength body.length := by decide
  have decoded : [first.body, [9, 0, 0, 0, 1], (Message.call 8 "2").body].map Message.decode =
      [received (7, "1"), .error (.invalidFrame "unknown message type 9"),
        received (8, "2")] := by cbv
  have whole : readAll stream = [received (7, "1"),
      .error (.invalidFrame "unknown message type 9"), received (8, "2"), .error .closed] := by
    have frames := readAll_frames within []
    rwa [List.append_nil, readAll_nil, decoded] at frames
  have fits : ∀ message ∈ [first], message.Fits := by decide
  have single : readAll other = [received (7, "1"), .error .closed] := readAll_messages fits
  refine ⟨whole, single, ?_⟩
  obtain ⟨calls, rest, split, ends, -, -, -, same, -⟩ := serve_answers_leading_calls stream
  have one : calls = [(7, "1")] := by
    rw [← (leadingCalls_eq_iff (readAll stream) calls).mpr ⟨rest, split, ends⟩, whole]
    rfl
  subst one
  exact same other [.error .closed] single (by simp [received])

end Reckon.Session
