/- Reckon.Proofs.Postfix.Conservation — reordering loses and invents nothing

Between two tokens, all that was read is either out or waits: values are out at
once and in order, operations are in one of the two places, and what waits
besides them are the parentheses that are open (`Accounts`).  Every token keeps
these accounts, so they are those of the whole sequence at its end
(`reorder_conserves`): closing parentheses are gone, and of the opening ones
exactly those are left that nothing closes.  One of them is enough to make the
result worthless.
-/
import Reckon.Proofs.Postfix.FirstFault
import Reckon.Proofs.Postfix.Parentheses
import Reckon.Postfix.Reorder

namespace Reckon
set_option autoImplicit false

namespace Token

/-- The token's number, if it is a value. -/
def value? : Token → Option Float
  | value x => some x
  | _ => none

/-- Whether the token is this operation. -/
def isOperationOf (op : Operation) : Token → Bool
  | operation op' => op' == op
  | _ => false

end Token

namespace Postfix

/-! ## The accounts -/

/-- Putting out what waits changes nothing about how the sequence would end. -/
theorem finish_release (state : Reordering) (leaves : Token → Bool) :
    (state.release leaves).finish = state.finish := by
  simp only [Reordering.finish, Reordering.release, List.reverse_append, List.reverse_reverse,
    List.append_assoc, Stack.popWhile_items]

/-- Where the tokens read so far are. -/
structure Accounts (read : List Token) (state : Reordering) : Prop where
  waits : ∀ token ∈ state.waiting.items, token.isOperation = true ∨ token = .leftParen
  out : ∀ token ∈ state.output, token ≠ .leftParen ∧ token ≠ .rightParen
  values : state.finish.filterMap Token.value? = read.filterMap Token.value?
  counts : ∀ counted : Token → Bool, counted .leftParen = false → counted .rightParen = false →
    state.finish.countP counted = read.countP counted
  opened : state.waiting.items.countP Token.isLeftParen = read.foldl nest 0

namespace Accounts
variable {read : List Token} {state : Reordering}

theorem start : Accounts [] .start where
  waits := nofun
  out := nofun
  values := rfl
  counts _ _ _ := rfl
  opened := rfl

/-- What waits has no value among it. -/
theorem values_waiting (accounts : Accounts read state) :
    state.waiting.items.filterMap Token.value? = [] := by
  rw [List.filterMap_eq_nil_iff]
  intro token member
  rcases accounts.waits token member with operation | rfl
  · cases token with
    | value x => cases operation
    | _ => rfl
  · rfl

/-- Releasing operations moves them from one place to the other. -/
theorem release (accounts : Accounts read state) {leaves : Token → Bool}
    (stays : leaves .leftParen = false) : Accounts read (state.release leaves) where
  waits token member :=
    accounts.waits token ((List.dropWhile_suffix leaves).subset member)
  out token member := by
    rcases List.mem_append.mp member with released | before
    · rw [List.mem_reverse] at released
      have left : leaves token = true := List.mem_takeWhile_imp released
      have waited : token ∈ state.waiting.items := (List.takeWhile_prefix leaves).subset released
      cases token with
      | leftParen => rw [stays] at left; cases left
      | rightParen => rcases accounts.waits _ waited with operation | same <;> contradiction
      | _ => exact ⟨nofun, nofun⟩
    · exact accounts.out token before
  values := by rw [finish_release, accounts.values]
  counts counted left right := by rw [finish_release, accounts.counts counted left right]
  opened := by
    have whole := congrArg (List.countP Token.isLeftParen)
      (state.waiting.popWhile_items leaves)
    have released : (state.waiting.items.takeWhile leaves).countP Token.isLeftParen = 0 := by
      rw [List.countP_eq_zero]
      intro token member
      have left : leaves token = true := List.mem_takeWhile_imp member
      cases token with
      | leftParen => rw [stays] at left; cases left
      | _ => simp [Token.isLeftParen]
    rw [List.countP_append, Stack.popWhile, released, Nat.zero_add, accounts.opened] at whole
    exact whole

theorem put (accounts : Accounts read state) (x : Float) :
    Accounts (read ++ [.value x]) (state.put (.value x)) where
  waits := accounts.waits
  out token member := by
    rcases List.mem_cons.mp member with rfl | before
    · exact ⟨nofun, nofun⟩
    · exact accounts.out token before
  values := by
    have none := accounts.values_waiting
    have values := accounts.values
    rw [Reordering.finish, List.filterMap_append, none, List.append_nil] at values
    rw [List.filterMap_append, ← values, Reordering.finish, Reordering.put, List.filterMap_append,
      none, List.append_nil, List.reverse_cons, List.filterMap_append]
  counts counted left right := by
    rw [List.countP_append, ← accounts.counts counted left right]
    simp only [Reordering.finish, Reordering.put, List.reverse_cons, List.countP_append]
    omega
  opened := by
    rw [List.foldl_append, ← accounts.opened]
    rfl

/-- An operation and an opening parenthesis wait. -/
theorem hold (accounts : Accounts read state) {token : Token}
    (waits : token.isOperation = true ∨ token = .leftParen) :
    Accounts (read ++ [token]) (state.hold token) where
  waits other member := by
    rcases List.mem_cons.mp member with rfl | below
    · exact waits
    · exact accounts.waits other below
  out := accounts.out
  values := by
    have none : token.value? = Option.none := by
      cases token with
      | value x => rcases waits with operation | same <;> contradiction
      | _ => rfl
    rw [List.filterMap_append, ← accounts.values]
    simp [Reordering.finish, Reordering.hold, Stack.push, none]
  counts counted left right := by
    rw [List.countP_append, ← accounts.counts counted left right]
    simp only [Reordering.finish, Reordering.hold, Stack.push, List.countP_append, List.countP_cons,
      List.countP_nil]
    omega
  opened := by
    rw [List.foldl_append, ← accounts.opened]
    rcases waits with operation | rfl
    · cases token with
      | operation op => rfl
      | _ => cases operation
    · exact List.countP_cons_of_pos rfl

/-- A closing parenthesis takes the opening one on top away, if there is any. -/
theorem discard (accounts : Accounts read state)
    (top : ∀ token ∈ state.waiting.items.head?, token = .leftParen) :
    Accounts (read ++ [.rightParen]) state.discard := by
  obtain ⟨output, ⟨items⟩⟩ := state
  have values := accounts.values
  have counts := accounts.counts
  cases items with
  | nil =>
    exact {
      waits := nofun
      out := accounts.out
      values := by rw [List.filterMap_append, ← values]; exact (List.append_nil _).symm
      counts := fun counted left right => by
        rw [List.countP_append, ← counts counted left right, List.countP_singleton, right]; rfl
      opened := by rw [List.foldl_append, ← accounts.opened]; rfl }
  | cons token rest =>
    obtain rfl : token = .leftParen := top token rfl
    exact {
      waits := fun token member => accounts.waits token (List.mem_cons_of_mem _ member)
      out := accounts.out
      values := by
        rw [List.filterMap_append, ← values]
        simp [Reordering.finish, Reordering.discard, List.filterMap_cons, Token.value?]
      counts := fun counted left right => by
        rw [List.countP_append, ← counts counted left right, List.countP_singleton, right]
        simp [Reordering.finish, Reordering.discard, left]
      opened := by
        have taken : (Token.leftParen :: rest).countP Token.isLeftParen =
            rest.countP Token.isLeftParen + 1 := List.countP_cons_of_pos rfl
        rw [List.foldl_append, ← accounts.opened, taken]
        rfl }

/-- One token keeps the accounts. -/
theorem step (accounts : Accounts read state) (token : Token) :
    Accounts (read ++ [token]) (state.step token) := by
  cases token with
  | value x => exact accounts.put x
  | operation op =>
    refine (accounts.release ?_).hold (.inl rfl)
    cases op <;> rfl
  | leftParen => exact accounts.hold (.inr rfl)
  | rightParen =>
    refine (accounts.release rfl).discard fun token top => ?_
    have stays := List.head?_dropWhile_not (fun top => !top.isLeftParen) state.waiting.items
    have shown : (state.waiting.items.dropWhile fun top => !top.isLeftParen).head? = some token :=
      top
    rw [shown] at stays
    cases token with
    | leftParen => rfl
    | _ => cases stays

/-- The accounts of the whole sequence. -/
theorem run (tokens : List Token) : Accounts tokens (tokens.foldl Reordering.step .start) := by
  induction tokens using List.reverseRecOn with
  | nil => exact .start
  | append_singleton tokens token ih =>
    rw [List.foldl_append]
    exact ih.step token

end Accounts

/-! ## The whole sequence -/

/-- A parenthesis anywhere makes a sequence worthless. -/
theorem evaluate_eq_error_of_leftParen {tokens : List Token} (member : .leftParen ∈ tokens) :
    ∃ fault, evaluate tokens = .error fault := by
  obtain ⟨before, after, rfl⟩ := List.append_of_mem member
  have stopped : ∃ fault, run .empty 0 (before ++ .leftParen :: after) = .error fault := by
    rw [run_append]
    cases run .empty 0 before with
    | error fault => exact ⟨fault, rfl⟩
    | ok values => exact ⟨_, rfl⟩
  obtain ⟨fault, ran⟩ := stopped
  exact ⟨fault, by rw [evaluate, ran]⟩

/-- The opening parentheses in the output are those that nothing closes. -/
theorem countP_isLeftParen_reorder (tokens : List Token) :
    (reorder tokens).countP Token.isLeftParen = unclosed tokens := by
  have accounts := Accounts.run tokens
  have out :
      (tokens.foldl Reordering.step .start).output.reverse.countP Token.isLeftParen = 0 := by
    rw [List.countP_eq_zero]
    intro token member left
    cases token with
    | leftParen => exact (accounts.out _ (List.mem_reverse.mp member)).1 rfl
    | _ => cases left
  rw [reorder, Reordering.finish, List.countP_append, out, Nat.zero_add, accounts.opened,
    foldl_nest_zero]

/-- **What reordering keeps.**  The output has no closing parenthesis, the values in the order in
which they were read, every operation as often as it was read, and as many opening parentheses
as nothing closes.  If there is one of these, the output has no value. -/
theorem reorder_conserves (tokens : List Token) :
    .rightParen ∉ reorder tokens ∧
    (reorder tokens).filterMap Token.value? = tokens.filterMap Token.value? ∧
    (∀ op, (reorder tokens).countP (Token.isOperationOf op) =
      tokens.countP (Token.isOperationOf op)) ∧
    (reorder tokens).countP Token.isLeftParen = unclosed tokens ∧
    (0 < unclosed tokens → ∃ fault, evaluate (reorder tokens) = .error fault) := by
  have accounts := Accounts.run tokens
  have parens := countP_isLeftParen_reorder tokens
  refine ⟨?_, accounts.values, fun op => accounts.counts _ rfl rfl, parens, fun positive => ?_⟩
  · intro member
    rcases List.mem_append.mp member with out | waiting
    · exact (accounts.out _ (List.mem_reverse.mp out)).2 rfl
    · rcases accounts.waits _ waiting with operation | same <;> contradiction
  · rw [← parens, List.countP_pos_iff] at positive
    obtain ⟨token, member, left⟩ := positive
    cases token with
    | leftParen => exact evaluate_eq_error_of_leftParen member
    | _ => cases left

/-- The first opening parenthesis has no closing one, the second closing one no opening one. -/
theorem reorder_conserves_unclosed :
    let tokens : List Token := [.value 1, .rightParen, .leftParen, .operation .add, .leftParen,
      .value 2, .rightParen]
    unclosed tokens = 1 ∧ ∃ fault, evaluate (reorder tokens) = .error fault := by
  intro tokens
  have one : unclosed tokens = 1 := by decide
  exact ⟨one, (reorder_conserves tokens).2.2.2.2 (by omega)⟩

end Postfix
end Reckon
