/- Reckon.Proofs.Session.Conversation — calling a server is evaluating

A client that is connected to a server gets for every expression what evaluating
it at home would give, a fault as its kind and its message.  An expression that
is too long for a frame is refused on the spot and not sent; it uses up a
sequence id, and nothing else comes of it.  This goes on until an answer is too
long for a frame, which is where the server closes the connection
(`callAll_serve`).

The invariant is that the two sides are in step: the server has read all that was
sent and stands where it stood at the start, and the client has read all that the
server has answered (`InStep`).  Ids take no part in it, so it does not matter
that they start over.
-/
import Reckon.Session.Client
import Reckon.Session.Server
import Reckon.Proofs.Number.Bits
import Reckon.Proofs.Wire.Codec

namespace Reckon.Session
set_option autoImplicit false

open Wire

/-! ## What fits a frame -/

/-- The call for an expression fits a frame. -/
def CallFits (expression : String) : Prop := 5 + expression.utf8ByteSize ≤ 65536

instance (expression : String) : Decidable (CallFits expression) :=
  inferInstanceAs (Decidable (_ ≤ _))

/-- The answer to a call for an expression fits a frame, whatever the call's id. -/
def AnswerFits (expression : String) : Prop :=
  ∀ sequence, ∃ encoded, encode (answer sequence expression) = .ok encoded

theorem encode_call {expression : String} (fits : CallFits expression) (sequence : UInt32) :
    encode (.call sequence expression) = .ok (frame (Message.call sequence expression).body) :=
  (encode_eq_ok_iff _ _).mpr ⟨by rw [Message.length_body_call]; exact fits, rfl⟩

theorem encode_call_eq_error {expression : String} (large : ¬CallFits expression)
    (sequence : UInt32) :
    encode (.call sequence expression) =
      .error (.frameTooLarge (5 + expression.utf8ByteSize)) := by
  have above : maxBody < (Message.call sequence expression).body.length := by
    rw [Message.length_body_call]
    exact Nat.not_le.mp large
  rw [encode, if_pos above, Message.length_body_call]

/-- The length of an answer does not depend on the id it carries. -/
theorem length_body_answer (sequence sequence' : UInt32) (expression : String) :
    (answer sequence expression).body.length = (answer sequence' expression).body.length := by
  unfold answer
  cases calculate expression <;> simp

theorem encode_answer_eq_error {expression : String} (large : ¬AnswerFits expression)
    (sequence : UInt32) : ∃ fault, encode (answer sequence expression) = .error fault := by
  cases written : encode (answer sequence expression) with
  | error fault => exact ⟨fault, rfl⟩
  | ok encoded =>
    refine absurd (fun other => ⟨_, (encode_eq_ok_iff _ _).mpr ⟨?_, rfl⟩⟩) large
    rw [length_body_answer other sequence]
    exact ((encode_eq_ok_iff _ _).mp written).1

/-- The answer to a call for an expression that has a value always fits. -/
theorem answerFits_of_calculate {expression : String} {x : Float}
    (value : calculate expression = .ok x) : AnswerFits expression := by
  intro sequence
  refine ⟨_, (encode_eq_ok_iff _ _).mpr ⟨?_, rfl⟩⟩
  simp [answer, value, maxBody]

/-! ## One call -/

/-- What a server does with a call and whatever comes behind it. -/
theorem serve_call {sequence : UInt32} {expression : String} {encoded : Bytes}
    (written : encode (.call sequence expression) = .ok encoded) (stream : Bytes) :
    serve (encoded ++ stream) =
      match encode (answer sequence expression) with
      | .ok reply => reply ++ serve stream
      | .error _ => [] := by
  have received := read_encode written stream
  rw [serve]
  split
  · rename_i found sought rest same
    rw [received] at same
    cases same
    rfl
  · rename_i other
    exact absurd received (other _ _ _)

theorem serve_nil : serve [] = [] := by
  rw [serve]
  rfl

/-- A client takes the server's answer for what it is: the value, or the kind and
the message of the fault. -/
theorem accept_answer (sequence : UInt32) (expression : String) :
    Client.accept sequence (.ok (answer sequence expression)) =
      match calculate expression with
      | .ok x => .ok x
      | .error fault => .error (.remote fault.kind fault.message) := by
  unfold answer
  cases calculate expression <;> simp [Client.accept]

/-- The server is where it was at the start, and the client has read all of its
answers. -/
structure InStep (client : Client) : Prop where
  served : ∀ stream, serve (client.sent ++ stream) = serve client.sent ++ serve stream
  taken : client.taken = (serve client.sent).length

theorem inStep_fresh : InStep Client.fresh where
  served stream := by simp [Client.fresh, serve_nil]
  taken := by simp [Client.fresh, serve_nil]

namespace Client
variable {client : Client} {expression : String}

/-- A call that is sent reads one message of what the peer has sent and the client
has not read. -/
theorem call_of_encode {client : Client} {expression : String} {encoded : Bytes}
    (written : encode (.call client.next expression) = .ok encoded) (peer : Peer) :
    client.call peer expression =
      let incoming := (peer (client.sent ++ encoded)).drop client.taken
      (accept client.next (read incoming).1,
        ⟨client.next + 1, client.sent ++ encoded,
          client.taken + (incoming.length - (read incoming).2.length)⟩) := by
  simp [call, written]

theorem next_call (client : Client) (peer : Peer) (expression : String) :
    (client.call peer expression).2.next = client.next + 1 := by
  cases written : encode (.call client.next expression) with
  | error fault => simp [call, written]
  | ok encoded => rw [call_of_encode written]

/-- An expression that is too long uses up an id and does nothing else. -/
theorem call_of_not_fits (large : ¬CallFits expression) (client : Client) (peer : Peer) :
    client.call peer expression =
      (.error (.frameTooLarge (5 + expression.utf8ByteSize)),
        { client with next := client.next + 1 }) := by
  simp [call, encode_call_eq_error large]

/-- The server's answer is all that is there to be read. -/
theorem call_of_answer {encoded reply : Bytes} (inStep : InStep client)
    (written : encode (.call client.next expression) = .ok encoded)
    (replied : encode (answer client.next expression) = .ok reply) :
    (client.call serve expression).1 =
        accept client.next (.ok (answer client.next expression)) ∧
      InStep (client.call serve expression).2 := by
  have served (stream : Bytes) :
      serve (client.sent ++ encoded ++ stream) = serve client.sent ++ reply ++ serve stream := by
    rw [List.append_assoc, inStep.served, serve_call written, replied, List.append_assoc]
  have all : serve (client.sent ++ encoded) = serve client.sent ++ reply := by
    simpa [serve_nil] using served []
  have received : read reply = (.ok (answer client.next expression), []) := by
    simpa using read_encode replied []
  have incoming : (serve client.sent ++ reply).drop client.taken = reply := by
    rw [inStep.taken, List.drop_left]
  have whole : client.call serve expression =
      (accept client.next (.ok (answer client.next expression)),
        ⟨client.next + 1, client.sent ++ encoded, client.taken + reply.length⟩) := by
    simp [call_of_encode written, all, incoming, received]
  rw [whole]
  refine ⟨rfl, ?_, ?_⟩
  · intro stream
    rw [all]
    exact served stream
  · rw [all, List.length_append, inStep.taken]

/-- A server that cannot answer closes the connection. -/
theorem call_of_no_answer {encoded : Bytes} {fault : WireFault} (inStep : InStep client)
    (written : encode (.call client.next expression) = .ok encoded)
    (refused : encode (answer client.next expression) = .error fault) :
    (client.call serve expression).1 = .error .closed := by
  have silent : serve encoded = [] := by simpa [refused] using serve_call written []
  -- What the server sent before has been read, so nothing is left.
  have incoming : (serve (client.sent ++ encoded)).drop client.taken = [] := by
    rw [inStep.served, silent, List.append_nil, inStep.taken, List.drop_length]
  have nothing : read [] = (.error .closed, []) := rfl
  simp [call_of_encode written, incoming, nothing, accept]

/-- One call keeps the two sides in step. -/
theorem inStep_call (inStep : InStep client)
    (answers : CallFits expression → AnswerFits expression) :
    InStep (client.call serve expression).2 := by
  by_cases fits : CallFits expression
  · obtain ⟨reply, replied⟩ := answers fits client.next
    exact (call_of_answer inStep (encode_call fits _) replied).2
  · rw [call_of_not_fits fits]
    exact ⟨inStep.served, inStep.taken⟩

/-! ## A whole conversation -/

theorem callAll_append (client : Client) (peer : Peer) (before after : List String) :
    client.callAll peer (before ++ after) =
      ((client.callAll peer before).1 ++ ((client.callAll peer before).2.callAll peer after).1,
        ((client.callAll peer before).2.callAll peer after).2) := by
  induction before generalizing client with
  | nil => rfl
  | cons expression before ih => simp [callAll, ih]

theorem length_callAll (client : Client) (peer : Peer) (expressions : List String) :
    (client.callAll peer expressions).1.length = expressions.length := by
  induction expressions generalizing client with
  | nil => rfl
  | cons expression expressions ih => simp [callAll, ih]

/-- The result of a call depends on the calls before it only through the client
that they leave. -/
theorem getElem?_callAll (client : Client) (peer : Peer) (before after : List String)
    (expression : String) :
    (client.callAll peer (before ++ expression :: after)).1[before.length]? =
      some ((client.callAll peer before).2.call peer expression).1 := by
  have here : (client.callAll peer before).1.length ≤ before.length :=
    (length_callAll client peer before).le
  rw [callAll_append, List.getElem?_append_right here, length_callAll, Nat.sub_self]
  rfl

/-- Every call takes an id, and the ids start over after the last. -/
theorem next_callAll (client : Client) (peer : Peer) (expressions : List String) :
    (client.callAll peer expressions).2.next =
      client.next + UInt32.ofNat expressions.length := by
  induction expressions generalizing client with
  | nil => simp [callAll]
  | cons expression expressions ih =>
    simp only [callAll, ih, next_call, List.length_cons, UInt32.ofNat_add]
    rw [UInt32.add_assoc, UInt32.add_comm 1]
    rfl

theorem inStep_callAll (inStep : InStep client) {expressions : List String}
    (answered : ∀ expression ∈ expressions, CallFits expression → AnswerFits expression) :
    InStep (client.callAll serve expressions).2 := by
  induction expressions generalizing client with
  | nil => exact inStep
  | cons expression expressions ih =>
    obtain ⟨first, others⟩ := List.forall_mem_cons.mp answered
    exact ih (inStep_call inStep first) others

/-- **A conversation is evaluation at home.**  As long as every answer fits a frame,
a call is refused for its length and nothing is sent, or it comes to what the
expression comes to without a connection.  The first answer that fits no frame
closes the connection. -/
theorem callAll_serve (before : List String)
    (answered : ∀ earlier ∈ before, CallFits earlier → AnswerFits earlier)
    (expression : String) (after : List String) :
    let client := (fresh.callAll serve before).2
    let result := (fresh.callAll serve (before ++ expression :: after)).1[before.length]?
    client.next = UInt32.ofNat before.length ∧
      (¬CallFits expression →
        result = some (.error (.frameTooLarge (5 + expression.utf8ByteSize))) ∧
        (client.call serve expression).2 = { client with next := client.next + 1 }) ∧
      (CallFits expression → AnswerFits expression →
        (∀ x, calculate expression = .ok x → result = some (.ok x)) ∧
        ∀ fault, calculate expression = .error fault →
          result = some (.error (.remote fault.kind fault.message))) ∧
      (CallFits expression → ¬AnswerFits expression → result = some (.error .closed)) := by
  intro client result
  have inStep : InStep client := inStep_callAll inStep_fresh answered
  have here : result = some (client.call serve expression).1 :=
    getElem?_callAll fresh serve before after expression
  rw [here]
  refine ⟨?_, ?_, ?_, ?_⟩
  · simp [client, next_callAll, fresh]
  · intro large
    rw [call_of_not_fits large]
    exact ⟨rfl, rfl⟩
  · intro fits answers
    obtain ⟨reply, replied⟩ := answers client.next
    rw [(call_of_answer inStep (encode_call fits _) replied).1, accept_answer]
    constructor
    · intro x value
      rw [value]
    · intro fault failed
      rw [failed]
  · intro fits large
    obtain ⟨fault, refused⟩ := encode_answer_eq_error large client.next
    rw [call_of_no_answer inStep (encode_call fits _) refused]

/-- A refused expression does not disturb the next call. -/
theorem callAll_after_fault :
    (∀ earlier ∈ ["1/"], CallFits earlier → AnswerFits earlier) ∧ CallFits "7" ∧
      AnswerFits "7" ∧ calculate "7" = .ok (Number.ofInteger 7) ∧
      (fresh.callAll serve (["1/"] ++ "7" :: [])).1[1]? = some (.ok (Number.ofInteger 7)) := by
  have refused : Expr.parse "1/" = .error .endOfText := by cbv
  have failed : calculate "1/" = .error (.source .endOfText) := by
    simp [calculate, Program.compile, readingOrder, refused, bind, Except.bind]
  have answered : ∀ earlier ∈ ["1/"], CallFits earlier → AnswerFits earlier := by
    intro earlier member _ sequence
    obtain rfl := List.mem_singleton.mp member
    refine ⟨_, (encode_eq_ok_iff _ _).mpr ⟨?_, rfl⟩⟩
    rw [answer, failed, Message.length_body_exception]
    decide
  have parsed : Expr.parse "7" = .ok (.literal .integer "7" 0) := by cbv
  have seven : Number.readInteger? "7" = some 7 := by cbv
  have value : calculate "7" = .ok (Number.ofInteger 7) := by
    simp [calculate, Program.compile, readingOrder, parsed, bind, Except.bind, Expr.inOrder,
      Expr.walk, Expr.literalValue, seven, pure, Except.pure]
    rfl
  have fits : CallFits "7" := by decide
  have answers : AnswerFits "7" := answerFits_of_calculate value
  obtain ⟨-, -, returned, -⟩ := callAll_serve ["1/"] answered "7" []
  exact ⟨answered, fits, answers, value, (returned fits answers).1 _ value⟩

end Client
end Reckon.Session
