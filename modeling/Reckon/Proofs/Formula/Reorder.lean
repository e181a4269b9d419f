/- Reckon.Proofs.Formula.Reorder — reading order to postfix order

A formula is ordered if its shape is the one that precedence gives to its
reading order: on the left of an operation nothing binds looser than it, on
the right everything binds tighter, and what stands in a group is free.
Reordering the reading order of an ordered formula gives its postfix order
(`reorder_inOrder`).

Reading a formula leaves on the stack the operations on its right edge, which
have not seen the end of their right sides (`pending`); all else is out
(`settled`).  A formula never disturbs what waits below it, as long as that
binds looser than the formula or is no operation at all (`Clear`).
-/
import Reckon.Postfix.Reorder
import Reckon.Proofs.Formula.Basic

namespace Reckon.Formula
set_option autoImplicit false

open Postfix

/-- How loosely a formula binds: values and groups bind tightest. -/
def looseness : Formula → Nat
  | node _ op _ => op.rank
  | _ => 0

theorem looseness_le (formula : Formula) : formula.looseness ≤ 2 := by
  cases formula with
  | node _ op _ => exact op.rank_le
  | _ => exact Nat.zero_le _

/-- The formula has the shape that precedence gives to its reading order. -/
def Ordered : Formula → Prop
  | value _ => True
  | group inner => inner.Ordered
  | node left op right =>
      left.looseness ≤ op.rank ∧ right.looseness < op.rank ∧ left.Ordered ∧ right.Ordered

/-- The operations on the right edge, the innermost first. -/
def pending : Formula → List Operation
  | node _ op right => right.pending ++ [op]
  | _ => []

/-- The postfix order up to the operations on the right edge. -/
def settled : Formula → List Token
  | value x => [.value x]
  | group inner => inner.postOrder
  | node left _ right => left.postOrder ++ right.settled

theorem settled_append_pending (formula : Formula) :
    formula.settled ++ formula.pending.map .operation = formula.postOrder := by
  induction formula with
  | value x => rfl
  | group inner _ => simp [settled, pending, postOrder]
  | node left op right _ ih => simp [settled, pending, postOrder, ← ih]

/-- Below a formula of this looseness nothing waits that the formula would put
out. -/
def Clear (looseness : Nat) (waiting : List Token) : Prop :=
  ∀ op, waiting.head? = some (.operation op) → looseness < op.rank

theorem Clear.mono {loose tight : Nat} {waiting : List Token} (clear : Clear loose waiting)
    (le : tight ≤ loose) : Clear tight waiting :=
  fun op top => Nat.lt_of_le_of_lt le (clear op top)

/-- An operation puts out exactly the operations that bind no looser. -/
theorem leaves_iff (op : Operation) (top : Token) :
    (if op.isMultiplicative then top.isMultiplicative else top.isOperation) = true ↔
      ∃ waiting, top = .operation waiting ∧ waiting.rank ≤ op.rank := by
  cases top with
  | operation waiting =>
    cases op <;> cases waiting <;>
      simp [Token.isMultiplicative, Token.isOperation, Operation.isMultiplicative, Operation.rank]
  | _ => cases op <;> simp [Token.isMultiplicative, Token.isOperation, Operation.isMultiplicative]

/-- Nothing on the right edge of an ordered formula binds looser than it. -/
theorem rank_le_of_mem_pending {formula : Formula} (ordered : formula.Ordered) :
    ∀ op ∈ formula.pending, op.rank ≤ formula.looseness := by
  induction formula with
  | node left op right _ ih =>
    intro waiting member
    obtain ⟨-, tighter, -, rightOrdered⟩ := ordered
    rcases List.mem_append.mp member with inner | root
    · exact Nat.le_of_lt (Nat.lt_of_le_of_lt (ih rightOrdered waiting inner) tighter)
    · rw [List.mem_singleton.mp root]
      exact Nat.le_refl _
  | _ => intro _ member; cases member

/-! ## One token -/

section Step
variable {output waiting : List Token}

/-- What is released is what leaves, up to the first token that stays. -/
theorem release_append {above : List Token} {leaves : Token → Bool}
    (leave : ∀ token ∈ above, leaves token = true)
    (stay : ∀ token ∈ waiting.head?, leaves token = false) :
    Reordering.release ⟨output, ⟨above ++ waiting⟩⟩ leaves =
      ⟨above.reverse ++ output, ⟨waiting⟩⟩ := by
  have rest : waiting.takeWhile leaves = [] ∧ waiting.dropWhile leaves = waiting := by
    cases waiting with
    | nil => exact ⟨rfl, rfl⟩
    | cons top _ => simp [stay top rfl]
  simp only [Reordering.release, Stack.popWhile]
  rw [List.takeWhile_append_of_pos leave, List.dropWhile_append_of_pos leave, rest.1, rest.2,
    List.append_nil]

/-- An operation releases the operations above the first token that stays, and
waits itself. -/
theorem step_operation {above : List Operation} {op : Operation}
    (tighter : ∀ earlier ∈ above, earlier.rank ≤ op.rank) (clear : Clear op.rank waiting) :
    Reordering.step ⟨output, ⟨above.map .operation ++ waiting⟩⟩ (.operation op) =
      ⟨(above.map Token.operation).reverse ++ output, ⟨.operation op :: waiting⟩⟩ := by
  rw [Reordering.step, release_append]
  · rfl
  · intro token member
    obtain ⟨earlier, among, rfl⟩ := List.mem_map.mp member
    exact (leaves_iff op _).mpr ⟨earlier, rfl, tighter earlier among⟩
  · intro token top
    rw [Bool.eq_false_iff]
    intro leaves
    obtain ⟨earlier, rfl, le⟩ := (leaves_iff op _).mp leaves
    exact absurd (clear earlier top) (Nat.not_lt_of_le le)

/-- A closing parenthesis releases what waits above the opening one, and takes
that away. -/
theorem step_rightParen (above : List Operation) :
    Reordering.step ⟨output, ⟨above.map .operation ++ .leftParen :: waiting⟩⟩ .rightParen =
      ⟨(above.map Token.operation).reverse ++ output, ⟨waiting⟩⟩ := by
  rw [Reordering.step, release_append]
  · rfl
  · intro token member
    obtain ⟨_, _, rfl⟩ := List.mem_map.mp member
    rfl
  · rintro token ⟨⟩
    rfl

end Step

/-! ## Whole formulas -/

/-- Reading an ordered formula puts out what is settled and leaves the rest
waiting above what waited before. -/
theorem foldl_step_inOrder {formula : Formula} (ordered : formula.Ordered)
    (output waiting : List Token) (clear : Clear formula.looseness waiting) :
    formula.inOrder.foldl Reordering.step ⟨output, ⟨waiting⟩⟩ =
      ⟨formula.settled.reverse ++ output, ⟨formula.pending.map .operation ++ waiting⟩⟩ := by
  induction formula generalizing output waiting with
  | value x => rfl
  | group inner ih =>
    have inside := ih ordered output (.leftParen :: waiting) (fun _ top => nomatch top)
    have opened : Reordering.step ⟨output, ⟨waiting⟩⟩ .leftParen =
        ⟨output, ⟨.leftParen :: waiting⟩⟩ := rfl
    rw [inOrder, List.foldl_cons, opened, List.foldl_append, inside, List.foldl_cons,
      List.foldl_nil, step_rightParen, settled, ← settled_append_pending inner]
    simp [pending]
  | node left op right ihLeft ihRight =>
    obtain ⟨leftLe, rightLt, leftOrdered, rightOrdered⟩ := ordered
    have before := ihLeft leftOrdered output waiting (clear.mono leftLe)
    have tighter : ∀ earlier ∈ left.pending, earlier.rank ≤ op.rank := fun earlier member =>
      Nat.le_trans (rank_le_of_mem_pending leftOrdered earlier member) leftLe
    have above : Clear right.looseness (.operation op :: waiting) := by
      rintro _ ⟨⟩
      exact rightLt
    rw [inOrder, List.foldl_append, before, List.foldl_cons, step_operation tighter clear,
      ihRight rightOrdered _ _ above, settled, ← settled_append_pending left]
    simp [pending]

/-- Reordering undoes what reading order forgets, for formulas whose shape is
the one that precedence gives to it. -/
theorem reorder_inOrder {formula : Formula} (ordered : formula.Ordered) :
    reorder formula.inOrder = formula.postOrder := by
  have read := foldl_step_inOrder ordered [] [] (fun _ top => nomatch top)
  rw [reorder, Reordering.start, Stack.empty, read, Reordering.finish,
    ← settled_append_pending formula]
  simp

end Reckon.Formula
