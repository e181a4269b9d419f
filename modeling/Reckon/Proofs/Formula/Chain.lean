/- Reckon.Proofs.Formula.Chain — chains without parentheses

A chain is a value and behind it, any number of times, an operation and a value.  It is meant to be
computed on two levels: split at its additions and subtractions into terms (`Chain.split`), each
term from left to right, and then the terms from left to right (`Chain.value`).  Doubles are not
associative, so no other grouping will do.

Both levels grow a formula to the right by one step after the other (`Formula.extend`).  What that
does to the reading order, the shape, the value and the faults is shown once, for any steps.  The
formula of a chain reads as the chain and is ordered, so it is what becomes of the chain in
postfix order.
-/
import Reckon.Proofs.Formula.Evaluate
import Reckon.Proofs.Formula.Reorder

namespace Reckon
set_option autoImplicit false

/-! ## Growing to the right -/

namespace Formula

/-- The formula with operations and their right sides behind it, the first of them innermost. -/
def extend (left : Formula) (steps : List (Operation × Formula)) : Formula :=
  steps.foldl (fun left step => .node left step.1 step.2) left

theorem inOrder_extend (left : Formula) (steps : List (Operation × Formula)) :
    (left.extend steps).inOrder =
      left.inOrder ++ steps.flatMap fun step => .operation step.1 :: step.2.inOrder := by
  induction steps generalizing left with
  | nil => simp [extend]
  | cons step steps ih =>
    rw [extend, List.foldl_cons, ← extend, ih, List.flatMap_cons, inOrder, List.append_assoc]

/-- Steps of one rank, with tighter right sides, leave the formula ordered. -/
theorem ordered_extend {left : Formula} {steps : List (Operation × Formula)} {rank : Nat}
    (ordered : left.Ordered) (loose : left.looseness ≤ rank)
    (level : ∀ step ∈ steps, step.1.rank = rank)
    (sides : ∀ step ∈ steps, step.2.Ordered ∧ step.2.looseness < rank) :
    (left.extend steps).Ordered ∧ (left.extend steps).looseness ≤ rank := by
  induction steps generalizing left with
  | nil => exact ⟨ordered, loose⟩
  | cons step steps ih =>
    obtain ⟨rfl, level⟩ := List.forall_mem_cons.mp level
    obtain ⟨⟨right, tight⟩, sides⟩ := List.forall_mem_cons.mp sides
    exact ih ⟨loose, tight, ordered, right⟩ (Nat.le_refl _) level sides

/-- What the operations come to if none is refused. -/
def result : Formula → Float
  | value x => x
  | group inner => inner.result
  | node left op right => op.compute left.result right.result

theorem result_extend (left : Formula) (steps : List (Operation × Formula)) :
    (left.extend steps).result =
      steps.foldl (fun x step => step.1.compute x step.2.result) left.result := by
  induction steps generalizing left with
  | nil => rfl
  | cons step steps ih => exact ih (.node left step.1 step.2)

theorem result_eq {formula : Formula} {x : Float} (evaluated : formula.evaluate = .ok x) :
    formula.result = x := by
  induction formula generalizing x with
  | value y => exact Except.ok.inj evaluated
  | group inner ih => exact ih evaluated
  | node left op right ihLeft ihRight =>
    rw [evaluate] at evaluated
    split at evaluated
    · cases evaluated
    · rename_i before leftSide
      split at evaluated
      · cases evaluated
      · rename_i after rightSide
        split at evaluated
        · cases evaluated
        · rw [result, ihLeft leftSide, ihRight rightSide]
          exact Except.ok.inj evaluated

/-- The formula has a division by zero that its evaluation comes to. -/
def Fails (formula : Formula) : Prop := ∃ index, formula.evaluate = .error index

theorem not_fails_value (x : Float) : ¬(value x).Fails := fun ⟨_, failed⟩ => nomatch failed

theorem evaluate_eq_result {formula : Formula} (sound : ¬formula.Fails) :
    formula.evaluate = .ok formula.result := by
  cases evaluated : formula.evaluate with
  | error index => exact absurd ⟨index, evaluated⟩ sound
  | ok x => rw [result_eq evaluated]

theorem fails_node (left right : Formula) (op : Operation) :
    (node left op right).Fails ↔
      left.Fails ∨ right.Fails ∨ op = .div ∧ ∃ y, right.evaluate = .ok y ∧ Number.IsZero y := by
  unfold Fails
  rw [evaluate]
  cases left.evaluate with
  | error index => simp
  | ok x =>
    cases right.evaluate with
    | error index => simp
    | ok y => by_cases zero : op = .div ∧ Number.IsZero y <;> simp [zero]

theorem fails_extend (left : Formula) (steps : List (Operation × Formula)) :
    (left.extend steps).Fails ↔ left.Fails ∨ ∃ step ∈ steps, step.2.Fails ∨
      step.1 = .div ∧ ∃ y, step.2.evaluate = .ok y ∧ Number.IsZero y := by
  induction steps generalizing left with
  | nil => simp [extend]
  | cons step steps ih =>
    rw [extend, List.foldl_cons, ← extend, ih, fails_node, List.exists_mem_cons_iff, or_assoc]

end Formula

/-! ## Chains -/

namespace Chain
open Formula (extend)

/-- An operation and the value behind it. -/
abbrev Link := Operation × Float

/-- An operation and the term behind it, a value and the links by which it goes on. -/
structure Term where
  op : Operation
  first : Float
  factors : List Link

/-- The chain in reading order. -/
def tokens (first : Float) (links : List Link) : List Token :=
  .value first :: links.flatMap fun link => [.operation link.1, .value link.2]

/-- The links of the first term, and the other terms. -/
def split : List Link → List Link × List Term
  | [] => ([], [])
  | (op, x) :: links =>
    let (factors, terms) := split links
    if op.isMultiplicative then ((op, x) :: factors, terms) else ([], ⟨op, x, factors⟩ :: terms)

/-- The value of a term, from left to right. -/
def termValue (first : Float) (factors : List Link) : Float :=
  factors.foldl (fun x link => link.1.compute x link.2) first

/-- The value of a chain: the values of its terms, from left to right. -/
def value (first : Float) (links : List Link) : Float :=
  (split links).2.foldl (fun x term => term.op.compute x (termValue term.first term.factors))
    (termValue first (split links).1)

/-! ## Terms -/

/-- The links that a term is made of. -/
def Term.links (term : Term) : List Link := (term.op, term.first) :: term.factors

/-- Splitting loses no link and keeps their order. -/
theorem split_join (links : List Link) :
    (split links).1 ++ (split links).2.flatMap Term.links = links := by
  induction links with
  | nil => rfl
  | cons link links ih =>
    obtain ⟨op, x⟩ := link
    rw [split]
    dsimp only
    split
    · rw [List.cons_append, ih]
    · rw [List.nil_append, List.flatMap_cons, Term.links, List.cons_append, ih]

example (x y z : Float) :
    split [(.mul, x), (.sub, y), (.div, z)] = ([(.mul, x)], [⟨.sub, y, [(.div, z)]⟩]) := rfl

/-- Only multiplications and divisions go on with a term. -/
def IsProduct (factors : List Link) : Prop := ∀ link ∈ factors, link.1.isMultiplicative = true

theorem split_parts (links : List Link) :
    IsProduct (split links).1 ∧
      ∀ term ∈ (split links).2, term.op.isMultiplicative = false ∧ IsProduct term.factors := by
  induction links with
  | nil => exact ⟨List.forall_mem_nil _, List.forall_mem_nil _⟩
  | cons link links ih =>
    obtain ⟨op, x⟩ := link
    obtain ⟨factors, terms⟩ := ih
    rw [split]
    dsimp only
    split
    · rename_i tight
      exact ⟨List.forall_mem_cons.mpr ⟨tight, factors⟩, terms⟩
    · rename_i loose
      exact ⟨List.forall_mem_nil _,
        List.forall_mem_cons.mpr ⟨⟨Bool.eq_false_iff.mpr loose, factors⟩, terms⟩⟩

/-! ## The formula of a chain -/

/-- The formula of a term. -/
def product (first : Float) (factors : List Link) : Formula :=
  extend (.value first) (factors.map fun link => (link.1, .value link.2))

/-- The formula of a chain. -/
def formula (first : Float) (links : List Link) : Formula :=
  extend (product first (split links).1)
    ((split links).2.map fun term => (term.op, product term.first term.factors))

theorem inOrder_product (first : Float) (factors : List Link) :
    (product first factors).inOrder = tokens first factors := by
  rw [product, Formula.inOrder_extend, List.flatMap_map]
  rfl

theorem inOrder_formula (first : Float) (links : List Link) :
    (formula first links).inOrder = tokens first links := by
  have whole := split_join links
  rw [formula, Formula.inOrder_extend, inOrder_product, List.flatMap_map]
  simp only [inOrder_product]
  conv_rhs => rw [← whole]
  simp [tokens, Term.links, List.flatMap_append, List.flatMap_assoc]

theorem ordered_product (first : Float) {factors : List Link} (tight : IsProduct factors) :
    (product first factors).Ordered ∧ (product first factors).looseness ≤ 1 := by
  refine Formula.ordered_extend trivial (Nat.zero_le _) (fun step member => ?_)
    fun step member => ?_
  · obtain ⟨link, among, rfl⟩ := List.mem_map.mp member
    exact if_pos (tight link among)
  · obtain ⟨link, among, rfl⟩ := List.mem_map.mp member
    exact ⟨trivial, Nat.one_pos⟩

theorem ordered_formula (first : Float) (links : List Link) : (formula first links).Ordered := by
  obtain ⟨factors, terms⟩ := split_parts links
  obtain ⟨ordered, loose⟩ := ordered_product first factors
  refine (Formula.ordered_extend ordered (Nat.le_succ_of_le loose) (fun step member => ?_)
    fun step member => ?_).1
  · obtain ⟨term, among, rfl⟩ := List.mem_map.mp member
    exact if_neg (Bool.eq_false_iff.mp (terms term among).1)
  · obtain ⟨term, among, rfl⟩ := List.mem_map.mp member
    obtain ⟨ordered, loose⟩ := ordered_product term.first (terms term among).2
    exact ⟨ordered, Nat.lt_succ_of_le loose⟩

theorem result_formula (first : Float) (links : List Link) :
    (formula first links).result = value first links := by
  have product_value (first : Float) (factors : List Link) :
      (product first factors).result = termValue first factors := by
    rw [product, Formula.result_extend, List.foldl_map]
    rfl
  rw [formula, Formula.result_extend, List.foldl_map, product_value]
  simp only [product_value]
  rfl

/-- A divisor among the links is a zero of either sign. -/
def DividesByZero (links : List Link) : Prop := ∃ x, (.div, x) ∈ links ∧ Number.IsZero x

theorem fails_product (first : Float) (factors : List Link) :
    (product first factors).Fails ↔ DividesByZero factors := by
  rw [product, Formula.fails_extend]
  constructor
  · rintro (failed | ⟨step, member, failed | ⟨division, y, evaluated, zero⟩⟩)
    · exact absurd failed (Formula.not_fails_value first)
    · obtain ⟨link, -, rfl⟩ := List.mem_map.mp member
      exact absurd failed (Formula.not_fails_value link.2)
    · obtain ⟨⟨op, x⟩, among, rfl⟩ := List.mem_map.mp member
      obtain rfl : op = .div := division
      obtain rfl : x = y := Except.ok.inj evaluated
      exact ⟨x, among, zero⟩
  · rintro ⟨x, member, zero⟩
    exact .inr ⟨_, List.mem_map_of_mem member, .inr ⟨rfl, x, rfl, zero⟩⟩

theorem fails_formula (first : Float) (links : List Link) :
    (formula first links).Fails ↔ DividesByZero links := by
  obtain ⟨-, terms⟩ := split_parts links
  have whole := split_join links
  rw [formula, Formula.fails_extend, fails_product]
  constructor
  · rintro (⟨x, member, zero⟩ | ⟨step, member, failed⟩)
    · exact ⟨x, by rw [← whole]; exact List.mem_append_left _ member, zero⟩
    · obtain ⟨term, among, rfl⟩ := List.mem_map.mp member
      rcases failed with failed | ⟨division, -⟩
      · obtain ⟨x, member, zero⟩ := (fails_product _ _).mp failed
        refine ⟨x, ?_, zero⟩
        rw [← whole]
        exact List.mem_append_right _
          (List.mem_flatMap.mpr ⟨term, among, List.mem_cons_of_mem _ member⟩)
      · obtain ⟨loose, -⟩ := terms term among
        rw [show term.op = .div from division] at loose
        cases loose
  · rintro ⟨x, member, zero⟩
    rw [← whole] at member
    rcases List.mem_append.mp member with member | member
    · exact .inl ⟨x, member, zero⟩
    · obtain ⟨term, among, inside⟩ := List.mem_flatMap.mp member
      refine .inr ⟨_, List.mem_map_of_mem among, .inl ((fails_product _ _).mpr ⟨x, ?_, zero⟩)⟩
      -- What stands in front of a term is an addition or a subtraction.
      rcases List.mem_cons.mp inside with same | inside
      · obtain ⟨loose, -⟩ := terms term among
        rw [← (Prod.mk.inj same).1] at loose
        cases loose
      · exact inside

/-! ## The value of a chain -/

/-- **Chains have the usual meaning.**  Put into postfix order and evaluated, a chain comes to the
value of its terms from left to right, each of which is computed from left to right, if no divisor
in it is a zero of either sign.  If one is, and only then, there is no value, for a division by
zero. -/
theorem evaluate_chain (first : Float) (links : List Link) :
    (¬DividesByZero links →
        Postfix.evaluate (Postfix.reorder (tokens first links)) = .ok (value first links)) ∧
      ((∃ fault, Postfix.evaluate (Postfix.reorder (tokens first links)) = .error fault) ↔
        DividesByZero links) ∧
      ∀ fault, Postfix.evaluate (Postfix.reorder (tokens first links)) = .error fault →
        ∃ index, fault = .divisionByZero index := by
  have evaluated : Postfix.evaluate (Postfix.reorder (tokens first links)) =
      (formula first links).evaluate.mapError RunFault.divisionByZero := by
    rw [← inOrder_formula, Formula.reorder_inOrder (ordered_formula first links),
      Postfix.evaluate_postOrder]
  rw [evaluated, ← fails_formula first]
  refine ⟨fun sound => ?_, ⟨?_, ?_⟩, ?_⟩
  · rw [Formula.evaluate_eq_result sound, result_formula]
    rfl
  · rintro ⟨fault, failed⟩
    cases outcome : (formula first links).evaluate with
    | ok x => rw [outcome] at failed; cases failed
    | error index => exact ⟨index, outcome⟩
  · rintro ⟨index, failed⟩
    exact ⟨.divisionByZero index, by rw [failed]; rfl⟩
  · intro fault failed
    cases outcome : (formula first links).evaluate with
    | ok x => rw [outcome] at failed; cases failed
    | error index => exact ⟨index, by rw [outcome] at failed; exact (Except.error.inj failed).symm⟩

/-- Three terms, two of them with several factors; and a division by the negative zero. -/
theorem evaluate_chain_mixed :
    let links : List Link := [(.div, 3), (.mul, 2), (.sub, 8), (.div, 4), (.add, 1)]
    let refused : List Link := [(.add, 2), (.div, -0), (.mul, 3)]
    ¬DividesByZero links ∧ DividesByZero refused ∧
      Postfix.evaluate (Postfix.reorder (tokens 6 links)) = .ok (6 / 3 * 2 - 8 / 4 + 1) ∧
      ∃ fault index, Postfix.evaluate (Postfix.reorder (tokens 1 refused)) = .error fault ∧
        fault = .divisionByZero index := by
  intro links refused
  have sound : ¬DividesByZero links := by
    rintro ⟨x, member, zero⟩
    have three : ¬Number.IsZero 3 := by decide +kernel
    have four : ¬Number.IsZero 4 := by decide +kernel
    rcases (by simpa [links] using member : x = 3 ∨ x = 4) with rfl | rfl
    · exact three zero
    · exact four zero
  have divides : DividesByZero refused := ⟨-0, by simp [refused], by decide +kernel⟩
  obtain ⟨fault, failed⟩ := (evaluate_chain 1 refused).2.1.mpr divides
  obtain ⟨index, shown⟩ := (evaluate_chain 1 refused).2.2 fault failed
  exact ⟨sound, divides, (evaluate_chain 6 links).1 sound, fault, index, failed, shown⟩

end Chain
end Reckon
