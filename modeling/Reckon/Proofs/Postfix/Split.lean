/- Reckon.Proofs.Postfix.Split — a closing parenthesis that closes nothing

Where no parenthesis is open, nothing but operations waits, and a closing one releases all
of them: the state is then the one that a new sequence starts from, behind the output of the
old one (`step_rightParen_of_closed`).  So the sequence falls apart there, whatever comes
before and behind.  Where a parenthesis is open it is closed instead, and one opening
parenthesis fewer gets into the output (`reorder_split_iff`).
-/
import Reckon.Proofs.Postfix.Barrier

namespace Reckon.Postfix
set_option autoImplicit false

variable {before : List Token}

/-! ## Where no parenthesis is open -/

/-- Nothing on the stack shuts off what is below it. -/
theorem waiting_of_closed (closed : unclosed before = 0) :
    ∀ token ∈ (before.foldl Reordering.step .start).waiting.items, (!token.isLeftParen) = true := by
  have opened := (Accounts.run before).opened
  rw [foldl_nest_zero, closed, List.countP_eq_zero] at opened
  intro token member
  simp [opened token member]

/-- A closing parenthesis that finds none to close puts out what the end would put out. -/
theorem step_rightParen_of_closed {state : Reordering}
    (closed : ∀ token ∈ state.waiting.items, (!token.isLeftParen) = true) :
    state.step .rightParen = ⟨state.finish.reverse, .empty⟩ := by
  obtain ⟨output, ⟨waiting⟩⟩ := state
  have released : Reordering.release ⟨output, ⟨waiting ++ []⟩⟩ (fun top => !top.isLeftParen) =
      ⟨waiting.reverse ++ output, ⟨[]⟩⟩ := Formula.release_append closed nofun
  rw [List.append_nil] at released
  rw [Reordering.step, released]
  simp [Reordering.discard, Reordering.finish, Stack.empty]

/-- What comes behind such a parenthesis is reordered as if nothing stood before it. -/
theorem reorder_append_rightParen (closed : unclosed before = 0) (after : List Token) :
    reorder (before ++ .rightParen :: after) = reorder before ++ reorder after := by
  have emptied := step_rightParen_of_closed (waiting_of_closed closed)
  calc reorder (before ++ .rightParen :: after)
      = (after.foldl Reordering.step ((before.foldl Reordering.step .start).step
          .rightParen)).finish := by rw [reorder, List.foldl_append, List.foldl_cons]
    _ = (after.foldl Reordering.step ⟨(reorder before).reverse, ⟨[]⟩⟩).finish := by
        rw [emptied]
        rfl
    _ = reorder before ++ reorder after := by
        rw [finish_foldl_step, List.reverse_reverse]
        rfl

/-! ## Where one is open -/

/-- A closing parenthesis closes one of those that are open before it. -/
theorem unclosed_append_rightParen (before after : List Token) :
    unclosed (before ++ .rightParen :: after) =
      unclosed before - 1 - unopened after + unclosed after := by
  rw [← foldl_nest_zero, List.foldl_append, foldl_nest_zero, List.foldl_cons, foldl_nest]
  rfl

/-- **A closing parenthesis that closes nothing splits a sequence.**  Reordering the whole puts out
the part before it, reordered, and then the part behind it, reordered, exactly if the part before
leaves no parenthesis open.  That part may have closing parentheses of this kind itself, and the
part behind may be anything. -/
theorem reorder_split_iff (before after : List Token) :
    reorder (before ++ .rightParen :: after) = reorder before ++ reorder after ↔
      unclosed before = 0 := by
  constructor
  · intro split
    have counts := congrArg (List.countP Token.isLeftParen) split
    rw [List.countP_append, countP_isLeftParen_reorder, countP_isLeftParen_reorder,
      countP_isLeftParen_reorder, unclosed_append_rightParen] at counts
    omega
  · intro closed
    exact reorder_append_rightParen closed after

end Reckon.Postfix
