/- Reckon.Proofs.Session.Script — a client whose peer sends what it likes

A peer may answer the same call twice, or calls in another order, it may make calls
itself and it may send what spells nothing.  A client that calls one expression after
the other takes one message for each call that it sends, and none for an expression
that is too long for one.  Only an answer with the id of that very call is a result;
everything else that was taken is a fault (`callAll_scripted`).

The invariant is the client's place in the script of the peer: it stands behind as
many messages as calls were sent (`drop_taken_callAll`).
-/
import Reckon.Proofs.Session.Conversation
import Reckon.Proofs.Wire.Stream

namespace Reckon.Session.Client
set_option autoImplicit false

open Wire

/-! ## What is taken for an answer -/

/-- The only value comes from a reply to the call. -/
theorem accept_eq_ok_iff (sequence : UInt32) (received : Except WireFault Message) (x : Float) :
    accept sequence received = .ok x ↔
      ∃ bits, received = .ok (.reply sequence bits) ∧ x = Float.ofBits bits := by
  constructor
  · intro accepted
    unfold accept at accepted
    split at accepted
    · cases accepted
    · cases accepted
    · rename_i found bits
      split at accepted
      · rename_i same
        cases accepted
        exact ⟨bits, by rw [same], rfl⟩
      · cases accepted
    · split at accepted <;> cases accepted
  · rintro ⟨bits, rfl, rfl⟩
    exact if_pos rfl

/-- The other side's fault comes from an exception for the call. -/
theorem received_of_accept_remote {sequence : UInt32} {received : Except WireFault Message}
    {kind : Fault.Kind} {message : String}
    (accepted : accept sequence received = .error (.remote kind message)) :
    received = .ok (.exception sequence kind message) ∨
      received = .error (.remote kind message) := by
  unfold accept at accepted
  split at accepted
  · cases accepted
    exact .inr rfl
  · cases accepted
  · split at accepted <;> cases accepted
  · split at accepted
    · rename_i same
      cases accepted
      exact .inl (by rw [same])
    · cases accepted

/-! ## One call -/

/-- A call that is sent takes one message, whatever comes of it. -/
theorem call_scripted (client : Client) {expression : String} (script : Bytes)
    (fits : CallFits expression) :
    let stream := script.drop client.taken
    let after := (client.call (scripted script) expression).2
    (client.call (scripted script) expression).1 = accept client.next (read stream).1 ∧
      after.sent = client.sent ++ frame (Message.call client.next expression).body ∧
      script.drop after.taken = (read stream).2 := by
  intro stream after
  have called := call_of_encode (encode_call fits client.next) (scripted script)
  have left : (read stream).2 = stream.drop (stream.length - (read stream).2.length) :=
    List.suffix_iff_eq_drop.mp (read_suffix stream)
  refine ⟨by rw [called]; rfl, by simp only [after, called], ?_⟩
  simp only [after, called, scripted]
  rw [← List.drop_drop, ← left]

/-- The frame of the call for an expression, if it has one. -/
def callFrame (sequence : UInt32) (expression : String) : Bytes :=
  match encode (.call sequence expression) with
  | .ok encoded => encoded
  | .error _ => []

theorem sent_call (client : Client) (peer : Peer) (expression : String) :
    (client.call peer expression).2.sent =
      client.sent ++ callFrame client.next expression := by
  cases written : encode (.call client.next expression) with
  | error fault => simp [call, callFrame, written]
  | ok encoded => simp [call, callFrame, written]

/-! ## All calls -/

/-- What is sent is the frames of the calls, which are numbered from the first. -/
theorem sent_callAll (client : Client) (peer : Peer) (expressions : List String) (first : Nat)
    (numbered : client.next = UInt32.ofNat first) :
    (client.callAll peer expressions).2.sent =
      client.sent ++ (expressions.zipIdx first).flatMap fun (expression, place) =>
        callFrame (UInt32.ofNat place) expression := by
  induction expressions generalizing client first with
  | nil => simp [callAll]
  | cons expression expressions ih =>
    have next : (client.call peer expression).2.next = UInt32.ofNat (first + 1) := by
      rw [next_call, numbered, UInt32.ofNat_add]
      rfl
    simp only [callAll, ih _ _ next, sent_call, numbered, List.zipIdx_cons, List.flatMap_cons,
      List.append_assoc]

/-- The client stands behind as many messages of the script as it has sent calls. -/
theorem drop_taken_callAll (script : Bytes) (client : Client) (count : Nat)
    (stands : script.drop client.taken = afterReads count script) (expressions : List String) :
    script.drop (client.callAll (scripted script) expressions).2.taken =
      afterReads (count + expressions.countP (CallFits ·)) script := by
  induction expressions generalizing client count with
  | nil => exact stands
  | cons expression expressions ih =>
    by_cases fits : CallFits expression
    · have one := (call_scripted client script fits).2.2
      rw [stands] at one
      have further := ih (client.call (scripted script) expression).2 (count + 1) one
      simpa [callAll, fits, Nat.add_assoc, Nat.add_comm 1] using further
    · have none := call_of_not_fits fits client (scripted script)
      have same : script.drop (client.call (scripted script) expression).2.taken =
          afterReads count script := by
        rw [none]
        exact stands
      simpa [callAll, fits] using ih _ count same

/-- **A client takes one message for each call.**  Whatever the peer sends, what the client
sends is the frames of the calls that have one, with their places for ids.  A call that has
one takes the next message of the peer's script, an expression that is too long takes
nothing.  A value or a fault of the other side is the result of a call only if the message
that this call took is the reply or the exception that says so and has this call's id. -/
theorem callAll_scripted (script : Bytes) (expressions : List String) :
    let peer := scripted script
    let results := (fresh.callAll peer expressions).1
    results.length = expressions.length ∧
      (fresh.callAll peer expressions).2.sent =
        expressions.zipIdx.flatMap (fun (expression, place) =>
          callFrame (UInt32.ofNat place) expression) ∧
      ∀ (before : List String) (expression : String) (after : List String),
        expressions = before ++ expression :: after →
        let sequence := UInt32.ofNat before.length
        let client := (fresh.callAll peer before).2
        let next := (client.call peer expression).2
        let result := results[before.length]?
        let stream := afterReads (before.countP (CallFits ·)) script
        client.next = sequence ∧ script.drop client.taken = stream ∧
          (CallFits expression →
            (∃ encoded, encode (.call sequence expression) = .ok encoded) ∧
            result = some (accept sequence (read stream).1) ∧
            script.drop next.taken = (read stream).2) ∧
          (¬CallFits expression →
            ∃ fault, encode (.call sequence expression) = .error fault ∧
              result = some (.error fault) ∧ next = { client with next := client.next + 1 }) ∧
          (∀ x, result = some (.ok x) →
            ∃ bits, CallFits expression ∧ (read stream).1 = .ok (.reply sequence bits) ∧
              x = Float.ofBits bits) ∧
          ∀ kind message, result = some (.error (.remote kind message)) →
            CallFits expression ∧ (read stream).1 = .ok (.exception sequence kind message) := by
  intro peer results
  refine ⟨length_callAll fresh peer expressions, ?_, ?_⟩
  · simpa [fresh] using sent_callAll fresh peer expressions 0 rfl
  · rintro before expression after rfl sequence client next result stream
    have numbered : client.next = sequence := by
      simp [client, next_callAll, fresh, sequence]
    have stands : script.drop client.taken = stream := by
      simpa using drop_taken_callAll script fresh 0 rfl before
    have here : result = some (client.call peer expression).1 :=
      getElem?_callAll fresh peer before after expression
    rw [here]
    by_cases fits : CallFits expression
    · obtain ⟨accepted, -, left⟩ := call_scripted client script fits
      rw [numbered, stands] at accepted
      rw [stands] at left
      refine ⟨numbered, stands,
        fun _ => ⟨⟨_, encode_call fits sequence⟩, congrArg some accepted, left⟩,
        fun large => absurd fits large, fun x value => ?_, fun kind message failed => ?_⟩
      · have taken := accepted.symm.trans (Option.some.inj value)
        obtain ⟨bits, replied, same⟩ := (accept_eq_ok_iff _ _ _).mp taken
        exact ⟨bits, fits, replied, same⟩
      · have taken := accepted.symm.trans (Option.some.inj failed)
        rcases received_of_accept_remote taken with replied | garbled
        · exact ⟨fits, replied⟩
        · exact absurd garbled (read_ne_remote stream kind message)
    · have refused := call_of_not_fits fits client peer
      refine ⟨numbered, stands, fun short => absurd short fits, fun _ => ?_,
        fun x value => ?_, fun kind message failed => ?_⟩
      · exact ⟨_, encode_call_eq_error fits sequence, by rw [refused], by simp only [next, refused]⟩
      · rw [refused] at value
        cases value
      · rw [refused] at failed
        cases failed

/-- A reply to the second call that comes before its turn is no answer to the first, and is
gone when the second is made. -/
theorem callAll_early_reply :
    let early : Message := .reply 1 0
    let late : Message := .exception 1 .invalidPostfix "no"
    let peer := scripted (frame early.body ++ frame late.body)
    ["1", "2"] = [] ++ "1" :: ["2"] ∧ ["1", "2"] = ["1"] ++ "2" :: [] ∧
      (fresh.callAll peer ["1", "2"]).1[0]? = some (.error (.sequenceMismatch 0 1)) ∧
      (fresh.callAll peer ["1", "2"]).1[1]? = some (.error (.remote .invalidPostfix "no")) := by
  intro early late peer
  have first : read (frame early.body ++ frame late.body) = (.ok early, frame late.body) :=
    read_encode (encode_of_fits (by decide)) _
  have second : read (frame late.body) = (.ok late, []) := by
    simpa using read_encode (encode_of_fits (show late.Fits by decide)) []
  obtain ⟨-, -, each⟩ := callAll_scripted (frame early.body ++ frame late.body) ["1", "2"]
  have one : CallFits "1" := by decide
  have two : CallFits "2" := by decide
  obtain ⟨-, -, taken, -⟩ := each [] "1" ["2"] rfl
  obtain ⟨-, -, taken', -⟩ := each ["1"] "2" [] rfl
  refine ⟨rfl, rfl, (taken one).2.1.trans ?_, (taken' two).2.1.trans ?_⟩
  · simp [afterReads, first, early, accept]
  · simp [afterReads, one, first, second, late, accept]

end Reckon.Session.Client
