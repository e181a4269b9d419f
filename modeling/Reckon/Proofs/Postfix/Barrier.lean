/- Reckon.Proofs.Postfix.Barrier — an opening parenthesis shuts off what is below

What waits below an opening parenthesis is out of reach until that parenthesis is
closed.  So a balanced part is read above one as it is read on its own
(`Balanced.foldl_step_above`), and its closing parenthesis restores the stack
that there was before the opening one (`foldl_step_group`): a group is put out
whole, and what waits and what comes notices no more of it than of a value.
-/
import Reckon.Proofs.Formula.Reorder
import Reckon.Proofs.Postfix.Conservation

namespace Reckon.Postfix
set_option autoImplicit false

namespace Reordering

/-- The state with more put out before and more waiting below. -/
def above (state : Reordering) (output below : List Token) : Reordering :=
  ⟨state.output ++ output, ⟨state.waiting.items ++ below⟩⟩

/-- Nothing waits here, or nothing but what an opening parenthesis shuts off. -/
def Shut (below : List Token) : Prop := ∀ top ∈ below.head?, top = .leftParen

theorem shut_nil : Shut [] := fun _ top => nomatch top

theorem shut_leftParen (below : List Token) : Shut (.leftParen :: below) := by
  rintro _ ⟨⟩
  rfl

variable {output below : List Token}

/-- Nothing below the first token that stays is released. -/
theorem release_above {leaves : Token → Bool} (stays : ∀ top ∈ below.head?, leaves top = false)
    (state : Reordering) :
    (state.above output below).release leaves = (state.release leaves).above output below := by
  have kept : ∀ top ∈ (state.waiting.items.dropWhile leaves ++ below).head?,
      leaves top = false := by
    intro top here
    have stays' := List.head?_dropWhile_not leaves state.waiting.items
    cases left : state.waiting.items.dropWhile leaves with
    | nil =>
      rw [left] at here
      exact stays top here
    | cons first others =>
      rw [left] at here stays'
      cases here
      exact stays'
  have leave : ∀ token ∈ state.waiting.items.takeWhile leaves, leaves token = true :=
    fun _ member => List.mem_takeWhile_imp member
  have released : release ⟨state.output ++ output, ⟨_⟩⟩ leaves = _ :=
    Formula.release_append leave kept
  rw [← List.append_assoc, List.takeWhile_append_dropWhile] at released
  rw [above, released, above, release, Stack.popWhile, List.append_assoc]

/-- A token is read above as it is on its own, unless it closes a parenthesis that is not there. -/
theorem step_above (shut : Shut below) (output : List Token) (state : Reordering) (token : Token)
    (inside : token = .rightParen → below = [] ∨ .leftParen ∈ state.waiting.items) :
    (state.above output below).step token = (state.step token).above output below := by
  cases token with
  | value x => rfl
  | leftParen => rfl
  | operation op =>
    have stays : ∀ top ∈ below.head?,
        (if op.isMultiplicative then top.isMultiplicative else top.isOperation) = false := by
      intro top member
      rw [shut top member]
      cases op <;> rfl
    rw [step, release_above stays]
    rfl
  | rightParen =>
    have stays : ∀ top ∈ below.head?, (!top.isLeftParen) = false := by
      intro top member
      rw [shut top member]
      rfl
    rw [step, release_above stays, step]
    rcases inside rfl with rfl | opened
    · simp [above, discard]
    · have remains : (state.release fun top => !top.isLeftParen).waiting.items ≠ [] := by
        intro none
        have released := List.dropWhile_eq_nil_iff.mp none _ opened
        cases released
      obtain ⟨top, rest, kept⟩ := List.exists_cons_of_ne_nil remains
      simp [above, discard, kept]

/-- What was put out before does not matter. -/
theorem foldl_step_above_nil (tokens output : List Token) (state : Reordering) :
    tokens.foldl step (state.above output []) = (tokens.foldl step state).above output [] := by
  induction tokens generalizing state with
  | nil => rfl
  | cons token tokens ih =>
    rw [List.foldl_cons, step_above shut_nil output state token fun _ => .inl rfl, ih,
      List.foldl_cons]

end Reordering

/-- A balanced part is read as it is on its own. -/
theorem Balanced.foldl_step_above {tokens below : List Token} (balanced : Balanced tokens)
    (shut : Reordering.Shut below) (output : List Token) (state : Reordering) :
    tokens.foldl Reordering.step (state.above output below) =
      (tokens.foldl Reordering.step state).above output below := by
  induction balanced generalizing state output below with
  | nil => rfl
  | @other token _ _ notRight _ ih =>
    rw [List.foldl_cons,
      Reordering.step_above shut output state token fun right => absurd right notRight, ih shut,
      List.foldl_cons]
  | @group inner rest _ _ ihInner ihRest =>
    have opened := Reordering.step_above shut output state .leftParen nofun
    -- Above its own opening parenthesis the inner part is read as on its own, too.
    have within :
        .leftParen ∈ (inner.foldl Reordering.step (state.step .leftParen)).waiting.items := by
      have alone := ihInner (Reordering.shut_leftParen state.waiting.items) state.output .start
      have kept := congrArg (fun state => state.waiting.items) alone
      exact kept ▸ List.mem_append_right _ List.mem_cons_self
    simp only [List.foldl_cons, List.foldl_append]
    rw [opened, ihInner shut, Reordering.step_above shut output _ .rightParen fun _ => .inr within,
      ihRest shut]

/-- A balanced part leaves no parenthesis open. -/
theorem Balanced.waiting {tokens : List Token} (balanced : Balanced tokens) :
    ∀ token ∈ (tokens.foldl Reordering.step .start).waiting.items, token.isLeftParen = false := by
  have opened := (Accounts.run tokens).opened
  rw [balanced.foldl_nest, List.countP_eq_zero] at opened
  intro token member
  exact Bool.eq_false_iff.mpr (opened token member)

/-- A group is put out as its contents would be on their own, and leaves on the stack what was
there before. -/
theorem foldl_step_group {inner : List Token} (balanced : Balanced inner) (state : Reordering)
    (after : List Token) :
    (Token.leftParen :: (inner ++ .rightParen :: after)).foldl Reordering.step state =
      after.foldl Reordering.step ⟨(reorder inner).reverse ++ state.output, state.waiting⟩ := by
  obtain ⟨output, ⟨below⟩⟩ := state
  have inside : inner.foldl Reordering.step ⟨output, ⟨.leftParen :: below⟩⟩ =
      (inner.foldl Reordering.step .start).above output (.leftParen :: below) :=
    balanced.foldl_step_above (Reordering.shut_leftParen below) output .start
  have closed : Reordering.step
        ((inner.foldl Reordering.step .start).above output (.leftParen :: below)) .rightParen =
      ⟨(reorder inner).reverse ++ output, ⟨below⟩⟩ := by
    rw [Reordering.above, Reordering.step, Formula.release_append]
    · simp [Reordering.discard, reorder, Reordering.finish]
    · intro token member
      rw [balanced.waiting token member]
      rfl
    · rintro _ ⟨⟩
      rfl
  have opened :
      Reordering.step ⟨output, ⟨below⟩⟩ .leftParen = ⟨output, ⟨.leftParen :: below⟩⟩ := rfl
  rw [List.foldl_cons, opened, List.foldl_append, inside, List.foldl_cons, closed]

/-- What is out stays out in front of all that comes. -/
theorem finish_foldl_step (tokens output waiting : List Token) :
    (tokens.foldl Reordering.step ⟨output, ⟨waiting⟩⟩).finish =
      output.reverse ++ (tokens.foldl Reordering.step ⟨[], ⟨waiting⟩⟩).finish := by
  have apart := Reordering.foldl_step_above_nil tokens output ⟨[], ⟨waiting⟩⟩
  simp only [Reordering.above, List.nil_append, List.append_nil] at apart
  rw [apart]
  simp [Reordering.finish]

/-- **A group is one operand.**  In whatever stands around it, a group whose contents are balanced
is put out where a value would be, as its contents are on their own. -/
theorem reorder_group_as_value (before inner after : List Token) (balanced : Balanced inner) :
    ∃ front back,
      (∀ x, reorder (before ++ .value x :: after) = front ++ .value x :: back) ∧
      reorder (before ++ .leftParen :: (inner ++ .rightParen :: after)) =
        front ++ reorder inner ++ back := by
  obtain ⟨⟨output, ⟨waiting⟩⟩, reached⟩ : ∃ state, before.foldl Reordering.step .start = state :=
    ⟨_, rfl⟩
  refine ⟨output.reverse, (after.foldl Reordering.step ⟨[], ⟨waiting⟩⟩).finish, fun x => ?_, ?_⟩
  · have put :
        Reordering.step ⟨output, ⟨waiting⟩⟩ (.value x) = ⟨.value x :: output, ⟨waiting⟩⟩ := rfl
    rw [reorder, List.foldl_append, reached, List.foldl_cons, put, finish_foldl_step]
    simp
  · rw [reorder, List.foldl_append, reached, foldl_step_group balanced, finish_foldl_step]
    simp

/-- Neither the parentheses around the group nor the operations in it have to make sense. -/
theorem reorder_group_as_value_within :
    let before : List Token := [.rightParen, .leftParen, .value 2, .operation .mul]
    let inner : List Token :=
      [.value 3, .operation .sub, .leftParen, .operation .div, .rightParen, .operation .add]
    let after : List Token := [.operation .mul, .value 4, .rightParen, .rightParen, .leftParen]
    Balanced inner ∧ ∃ front back,
      (∀ x, reorder (before ++ .value x :: after) = front ++ .value x :: back) ∧
      reorder (before ++ .leftParen :: (inner ++ .rightParen :: after)) =
        front ++ reorder inner ++ back := by
  intro before inner after
  have balanced : Balanced inner := by decide
  exact ⟨balanced, reorder_group_as_value before inner after balanced⟩

end Reckon.Postfix
