/- Reckon.Proofs.Program.Compile — a compiled text is the postfix order of its tree

Precedence is decided twice on the way from a text to a program: by the grammar,
and again by reordering the tokens of the tree, which have forgotten the tree's
shape.  The two agree on every text, so compiling gives the postfix order of the
formula that the text's tree asks for, and evaluating the program is evaluating
that formula.
-/
import Reckon.Program
import Reckon.Proofs.Expr.Formula
import Reckon.Proofs.Expr.Recognition
import Reckon.Proofs.Formula.Evaluate

namespace Reckon.Program
set_option autoImplicit false

/-- The formula of a text's tree is ordered. -/
theorem ordered_of_parse {source : String} {tree : Expr} {formula : Formula}
    (parsed : Expr.parse source = .ok tree) (computed : tree.formula = .ok formula) :
    formula.Ordered := by
  obtain ⟨lexemes, -, derived⟩ := Expr.derives_of_parse parsed
  exact (Expr.ordered_of_derives derived computed).1

theorem readingOrder_eq_ok_iff (source : String) (tokens : List Token) :
    readingOrder source = .ok tokens ↔
      ∃ tree formula, Expr.parse source = .ok tree ∧ tree.formula = .ok formula ∧
        formula.inOrder = tokens := by
  cases parsed : Expr.parse source with
  | error fault => simp [readingOrder, parsed, bind, Except.bind]
  | ok tree =>
    have read : readingOrder source = tree.inOrder := by
      simp [readingOrder, parsed, bind, Except.bind]
    rw [read, Expr.inOrder_eq_ok_iff]
    simp

theorem compile_of_readingOrder {source : String} {tokens : List Token}
    (read : readingOrder source = .ok tokens) :
    compile source = .ok ⟨Postfix.reorder tokens⟩ := by
  simp [compile, read, bind, Except.bind, pure, Except.pure]

/-- A text compiles to the postfix order of its formula, and to nothing else. -/
theorem compile_eq_ok_iff (source : String) (program : Program) :
    compile source = .ok program ↔
      ∃ tree formula, Expr.parse source = .ok tree ∧ tree.formula = .ok formula ∧
        program = ⟨formula.postOrder⟩ := by
  constructor
  · intro compiled
    cases read : readingOrder source with
    | error fault => simp [compile, read, bind, Except.bind] at compiled
    | ok tokens =>
      rw [compile_of_readingOrder read] at compiled
      obtain ⟨tree, formula, parsed, computed, rfl⟩ := (readingOrder_eq_ok_iff _ _).mp read
      cases compiled
      rw [Formula.reorder_inOrder (ordered_of_parse parsed computed)]
      exact ⟨tree, formula, parsed, computed, rfl⟩
  · rintro ⟨tree, formula, parsed, computed, rfl⟩
    have read := (readingOrder_eq_ok_iff source _).mpr ⟨tree, formula, parsed, computed, rfl⟩
    rw [compile_of_readingOrder read,
      Formula.reorder_inOrder (ordered_of_parse parsed computed)]

end Reckon.Program
