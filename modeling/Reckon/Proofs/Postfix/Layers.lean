/- Reckon.Proofs.Postfix.Layers — what waits, waits in layers

An addition or a subtraction comes to wait only where no operation is on top, and a
multiplication or a division only where none of its own kind is.  So between two opening
parentheses there wait at most two operations, and if two, the one above binds tighter than the
one below (`Layer`).  This needs no formula: it is so of every sequence, whatever its parentheses
do (`Layered`).

A step takes away, one by one, all that the token releases, and the end takes away what is left.
The states in between are moments of the reordering like those between two tokens (`Moment`),
and from each of them the steps lead to the same output (`Moment.finish`).
-/
import Reckon.Proofs.Postfix.Barrier

namespace Reckon
set_option autoImplicit false

namespace Token

/-- Whether a token, when it is read, puts out what is on top. -/
def releases (token top : Token) : Bool :=
  match token with
  | operation op => if op.isMultiplicative then top.isMultiplicative else top.isOperation
  | rightParen => !top.isLeftParen
  | _ => false

/-- What waits behind a token that has nothing to release. -/
def settle (waiting : List Token) : Token → List Token
  | value _ => waiting
  | operation op => operation op :: waiting
  | leftParen => leftParen :: waiting
  | rightParen => waiting.tail

end Token

namespace Postfix

/-! ## Moments -/

/-- The states that there are while `tokens` are reordered, each with the tokens that are not
read yet. -/
inductive Moment (tokens : List Token) : Reordering → List Token → Prop where
  | start : Moment tokens .start tokens
  /-- The token that comes next releases the top. -/
  | release {output below rest : List Token} {top token : Token}
      (earlier : Moment tokens ⟨output, ⟨top :: below⟩⟩ (token :: rest))
      (leaves : token.releases top = true) :
      Moment tokens ⟨top :: output, ⟨below⟩⟩ (token :: rest)
  /-- The token that comes next has nothing left to release, and is read. -/
  | read {state : Reordering} {rest : List Token} {token : Token}
      (earlier : Moment tokens state (token :: rest))
      (stays : ∀ top ∈ state.waiting.items.head?, token.releases top = false) :
      Moment tokens (state.step token) rest
  /-- No token is left, so whatever is on top is put out. -/
  | drain {output below : List Token} {top : Token}
      (earlier : Moment tokens ⟨output, ⟨top :: below⟩⟩ []) :
      Moment tokens ⟨top :: output, ⟨below⟩⟩ []

section Step
variable {output below : List Token} {state : Reordering} {top token : Token}

/-- What a token releases may be put out before it is read. -/
theorem step_release (leaves : token.releases top = true) :
    Reordering.step ⟨top :: output, ⟨below⟩⟩ token =
      Reordering.step ⟨output, ⟨top :: below⟩⟩ token := by
  have released (leaves : Token → Bool) (leave : leaves top = true) :
      Reordering.release ⟨top :: output, ⟨below⟩⟩ leaves =
        Reordering.release ⟨output, ⟨top :: below⟩⟩ leaves := by
    simp [Reordering.release, Stack.popWhile, leave]
  cases token with
  | operation op => exact congrArg (·.hold (.operation op)) (released _ leaves)
  | rightParen => exact congrArg Reordering.discard (released _ leaves)
  | _ => cases leaves

theorem waiting_step (stays : ∀ top ∈ state.waiting.items.head?, token.releases top = false) :
    (state.step token).waiting.items = token.settle state.waiting.items := by
  have none : ∀ leaving ∈ ([] : List Token), token.releases leaving = true := nofun
  have kept : state.release token.releases = state := Formula.release_append none stays
  cases token with
  | operation op => exact congrArg (fun state => .operation op :: state.waiting.items) kept
  | rightParen =>
    have taken := congrArg (fun state => state.discard.waiting.items) kept
    exact taken.trans List.drop_one
  | _ => rfl

end Step

namespace Moment
variable {tokens rest : List Token} {state : Reordering} {token : Token}

/-- One step, with all the moments on its way. -/
theorem step (moment : Moment tokens state (token :: rest)) :
    Moment tokens (state.step token) rest := by
  obtain ⟨output, ⟨waiting⟩⟩ := state
  -- On what waits: every release is a moment of its own, and the step from there is the same.
  induction waiting generalizing output with
  | nil => exact moment.read nofun
  | cons top below ih =>
    cases leaves : token.releases top with
    | true =>
      rw [← step_release leaves]
      exact ih (top :: output) (moment.release leaves)
    | false =>
      refine moment.read ?_
      rintro _ ⟨⟩
      exact leaves

theorem foldl {read : List Token} (moment : Moment tokens state (read ++ rest)) :
    Moment tokens (read.foldl Reordering.step state) rest := by
  induction read generalizing state with
  | nil => exact moment
  | cons token read ih => exact ih moment.step

/-- What waits at the end is put out from the top. -/
theorem drained {output waiting : List Token} (moment : Moment tokens ⟨output, ⟨waiting⟩⟩ []) :
    Moment tokens ⟨waiting.reverse ++ output, .empty⟩ [] := by
  induction waiting generalizing output with
  | nil => exact moment
  | cons top below ih =>
    rw [List.reverse_cons, List.append_assoc, List.singleton_append]
    exact ih moment.drain

/-- The moment behind the first tokens of a sequence. -/
theorem behind (before after : List Token) :
    Moment (before ++ after) (before.foldl Reordering.step .start) after :=
  Moment.start.foldl

/-- The last moment. -/
theorem last (tokens : List Token) : Moment tokens ⟨(reorder tokens).reverse, .empty⟩ [] := by
  have read := behind tokens []
  rw [List.append_nil] at read
  rw [reorder, Reordering.finish, List.reverse_append, List.reverse_reverse]
  exact read.drained

/-- Every moment is on the way to the same output. -/
theorem finish (moment : Moment tokens state rest) :
    (rest.foldl Reordering.step state).finish = reorder tokens := by
  induction moment with
  | start => rfl
  | release _ leaves ih => rwa [List.foldl_cons, step_release leaves]
  | read _ _ ih => exact ih
  | drain _ ih => simpa [Reordering.finish] using ih

end Moment

/-! ## Layers -/

/-- What can wait between two opening parentheses, from the top. -/
inductive Layer : List Token → Prop where
  | empty : Layer []
  | loose {op : Operation} (additive : op.isMultiplicative = false) : Layer [.operation op]
  | tight {op : Operation} (multiplicative : op.isMultiplicative = true) : Layer [.operation op]
  | tightAboveLoose {op below : Operation} (multiplicative : op.isMultiplicative = true)
      (additive : below.isMultiplicative = false) : Layer [.operation op, .operation below]

/-- What waits above the last opening parenthesis is a layer, and so is what waits between any two
and below the first. -/
inductive Layered : List Token → Prop where
  | single {layer : List Token} (only : Layer layer) : Layered layer
  | above {layer below : List Token} (top : Layer layer) (others : Layered below) :
      Layered (layer ++ .leftParen :: below)

/-- Of two operations the later one leaves the earlier one waiting exactly if it binds tighter. -/
theorem releases_eq_false_iff (op earlier : Operation) :
    (Token.operation op).releases (.operation earlier) = false ↔
      op.isMultiplicative = true ∧ earlier.isMultiplicative = false := by
  cases op <;> cases earlier <;> decide

theorem releases_leftParen (token : Token) : token.releases .leftParen = false := by
  cases token with
  | operation op => cases op <;> rfl
  | _ => rfl

namespace Layer
variable {layer : List Token}

theorem length_le (only : Layer layer) : layer.length ≤ 2 := by
  cases only <;> simp

theorem countP_isLeftParen (only : Layer layer) : layer.countP Token.isLeftParen = 0 := by
  cases only <;> rfl

theorem tail (only : Layer layer) : Layer layer.tail := by
  cases only with
  | tightAboveLoose _ additive => exact .loose additive
  | _ => exact .empty

/-- An operation that has nothing to release makes a layer one higher. -/
theorem push (only : Layer layer) {op : Operation}
    (stays : ∀ top ∈ layer.head?, (Token.operation op).releases top = false) :
    Layer (.operation op :: layer) := by
  cases only with
  | empty =>
    cases multiplicative : op.isMultiplicative with
    | false => exact .loose multiplicative
    | true => exact .tight multiplicative
  | loose additive =>
    obtain ⟨multiplicative, -⟩ := (releases_eq_false_iff op _).mp (stays _ rfl)
    exact .tightAboveLoose multiplicative additive
  | tight multiplicative | tightAboveLoose multiplicative _ =>
    obtain ⟨-, additive⟩ := (releases_eq_false_iff op _).mp (stays _ rfl)
    rw [multiplicative] at additive
    cases additive

end Layer

namespace Layered
variable {items : List Token}

/-- Two operations for each layer, and one layer more than there are parentheses. -/
theorem length_le (layered : Layered items) :
    items.length ≤ 3 * items.countP Token.isLeftParen + 2 := by
  induction layered with
  | single only =>
    have few := only.length_le
    omega
  | @above layer below top _ ih =>
    have few := top.length_le
    have opened : (Token.leftParen :: below).countP Token.isLeftParen =
        below.countP Token.isLeftParen + 1 := List.countP_cons_of_pos rfl
    rw [List.length_append, List.length_cons, List.countP_append, top.countP_isLeftParen, opened]
    omega

/-- Taking an opening parenthesis off uncovers the layer below it. -/
theorem tail (layered : Layered items) : Layered items.tail := by
  cases layered with
  | single only => exact .single only.tail
  | @above layer below top others =>
    cases layer with
    | nil => exact others
    | cons token layer => exact .above top.tail others

theorem push (layered : Layered items) {op : Operation}
    (stays : ∀ top ∈ items.head?, (Token.operation op).releases top = false) :
    Layered (.operation op :: items) := by
  cases layered with
  | single only => exact .single (only.push stays)
  | @above layer below top others =>
    have within : ∀ token ∈ layer.head?, (Token.operation op).releases token = false := by
      intro token member
      exact stays token (by simp [List.head?_append, Option.mem_def.mp member])
    exact .above (top.push within) others

end Layered

/-- Read from the bottom to the top, a layer comes to wait as it is, on top of what is shut off. -/
theorem waiting_of_layer {layer below : List Token} (only : Layer layer)
    (shut : Reordering.Shut below) {state : Reordering} (waiting : state.waiting.items = below) :
    (layer.reverse.foldl Reordering.step state).waiting.items = layer ++ below := by
  have stays (op : Operation) : ∀ top ∈ state.waiting.items.head?,
      (Token.operation op).releases top = false := by
    intro top member
    rw [waiting] at member
    rw [shut top member]
    exact releases_leftParen _
  have first (op : Operation) : (state.step (.operation op)).waiting.items =
      .operation op :: below := by
    rw [waiting_step (stays op), waiting, Token.settle]
  cases only with
  | empty => exact waiting
  | @loose op _ => exact first op
  | @tight op _ => exact first op
  | @tightAboveLoose op earlier multiplicative additive =>
    have above : ∀ top ∈ (state.step (.operation earlier)).waiting.items.head?,
        (Token.operation op).releases top = false := by
      rw [first earlier]
      rintro _ ⟨⟩
      exact (releases_eq_false_iff op earlier).mpr ⟨multiplicative, additive⟩
    have both : ((state.step (.operation earlier)).step (.operation op)).waiting.items =
        .operation op :: .operation earlier :: below := by
      rw [waiting_step above, first earlier, Token.settle]
    exact both

/-- Every stack in layers is what waits behind some sequence. -/
theorem Layered.exists_waiting {items : List Token} (layered : Layered items) :
    ∃ tokens : List Token, (tokens.foldl Reordering.step .start).waiting.items = items := by
  induction layered with
  | @single layer only =>
    have read : (layer.reverse.foldl Reordering.step .start).waiting.items = layer ++ [] :=
      waiting_of_layer only Reordering.shut_nil rfl
    exact ⟨layer.reverse, by rw [read, List.append_nil]⟩
  | @above layer below top _ ih =>
    obtain ⟨tokens, waiting⟩ := ih
    have opened : ((tokens.foldl Reordering.step .start).step .leftParen).waiting.items =
        .leftParen :: below := congrArg (List.cons Token.leftParen) waiting
    refine ⟨tokens ++ .leftParen :: layer.reverse, ?_⟩
    rw [List.foldl_append]
    exact waiting_of_layer top (Reordering.shut_leftParen below) opened

/-- A token changes the number of open parentheses on the stack as it does in the sequence. -/
theorem countP_settle_le {waiting : List Token} {token : Token} {depth : Nat}
    (stays : ∀ top ∈ waiting.head?, token.releases top = false)
    (few : waiting.countP Token.isLeftParen ≤ depth) :
    (token.settle waiting).countP Token.isLeftParen ≤ nest depth token := by
  cases token with
  | value x => exact few
  | operation op => exact few
  | leftParen =>
    rw [Token.settle, List.countP_cons_of_pos rfl]
    exact Nat.succ_le_succ few
  | rightParen =>
    cases waiting with
    | nil => exact Nat.zero_le _
    | cons top below =>
      -- Only an opening parenthesis stays in front of a closing one.
      have opening := stays top rfl
      cases top with
      | leftParen =>
        rw [List.countP_cons_of_pos rfl] at few
        exact Nat.le_sub_one_of_lt few
      | _ => cases opening

/-! ## At every moment -/

namespace Moment
variable {tokens rest : List Token} {state : Reordering}

theorem layered (moment : Moment tokens state rest) : Layered state.waiting.items := by
  induction moment with
  | start => exact .single .empty
  | release _ _ ih => exact ih.tail
  | drain _ ih => exact ih.tail
  | @read state rest token _ stays ih =>
    rw [waiting_step stays]
    cases token with
    | value x => exact ih
    | operation op => exact ih.push stays
    | leftParen => exact .above .empty ih
    | rightParen => exact ih.tail

/-- The opening parentheses that wait are among those that nothing has closed so far. -/
theorem countP_le_unclosed (moment : Moment tokens state rest) :
    ∃ read, tokens = read ++ rest ∧
      state.waiting.items.countP Token.isLeftParen ≤ unclosed read := by
  induction moment with
  | start => exact ⟨[], rfl, Nat.zero_le _⟩
  | release _ _ ih | drain _ ih =>
    obtain ⟨read, whole, few⟩ := ih
    exact ⟨read, whole, Nat.le_trans (List.sublist_cons_self _ _).countP_le few⟩
  | @read state rest token _ stays ih =>
    obtain ⟨read, whole, few⟩ := ih
    refine ⟨read ++ [token], by rw [whole, List.append_assoc, List.singleton_append], ?_⟩
    rw [unclosed_concat, waiting_step stays]
    exact countP_settle_le stays few

end Moment

/-- **What waits, waits in layers.**  At every moment of the reordering of any sequence, what waits
above the last opening parenthesis is nothing, one operation, or a multiplication or division above
an addition or subtraction, and so is what waits between any two and below the first.  So at most
two tokens more than three times the opening parentheses wait, and these are among those that
nothing read so far has closed.  Every stack like that occurs. -/
theorem waiting_in_layers :
    (∀ (tokens rest : List Token) (state : Reordering), Moment tokens state rest →
      Layered state.waiting.items ∧
      state.waiting.size ≤ 3 * state.waiting.items.countP Token.isLeftParen + 2 ∧
      (∃ read, tokens = read ++ rest ∧
        state.waiting.items.countP Token.isLeftParen ≤ unclosed read) ∧
      (rest.foldl Reordering.step state).finish = reorder tokens) ∧
    (∀ before after, Moment (before ++ after) (before.foldl Reordering.step .start) after) ∧
    (∀ tokens, Moment tokens ⟨(reorder tokens).reverse, .empty⟩ []) ∧
    ∀ items, Layered items →
      ∃ tokens : List Token, (tokens.foldl Reordering.step .start).waiting.items = items := by
  refine ⟨fun tokens rest state moment => ?_, Moment.behind, Moment.last, fun items layered => ?_⟩
  · have layered := moment.layered
    exact ⟨layered, layered.length_le, moment.countP_le_unclosed, moment.finish⟩
  · exact layered.exists_waiting

/-- Midway through a subtraction that has released the division on top and not yet what is below. -/
theorem waiting_in_layers_midway :
    let before : List Token := [.rightParen, .operation .add, .value 1, .operation .mul, .leftParen,
      .operation .sub, .operation .div]
    let after : List Token := [.operation .sub, .rightParen, .rightParen]
    let state : Reordering := ⟨[.operation .div, .value 1],
      ⟨[.operation .sub, .leftParen, .operation .mul, .operation .add]⟩⟩
    Moment (before ++ after) state after ∧
      Layered state.waiting.items ∧
      state.waiting.size ≤ 3 * state.waiting.items.countP Token.isLeftParen + 2 ∧
      (∃ read, before ++ after = read ++ after ∧
        state.waiting.items.countP Token.isLeftParen ≤ unclosed read) ∧
      (after.foldl Reordering.step state).finish = reorder (before ++ after) := by
  intro before after state
  have moment : Moment (before ++ after) state after := (Moment.behind before after).release rfl
  exact ⟨moment, waiting_in_layers.1 (before ++ after) after state moment⟩

end Postfix
end Reckon
