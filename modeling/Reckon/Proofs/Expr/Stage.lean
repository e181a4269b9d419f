/- Reckon.Proofs.Expr.Stage — what may come next in an expression

An expression can be checked in one pass from left to right, without a tree.  All
that has to be remembered is the stage that the reading is at: whether an operand
is due or complete, and which signs, groups and argument lists are open around it,
the innermost first (`Stage`).  How many are open is how deep the place is nested.

Every stage can be gone on with to an end of the expression (`Stage.exists_run`),
so a lexeme has no place exactly where there is no next stage.
-/
import Mathlib
import Reckon.Expr.Parse

namespace Reckon.Expr
set_option autoImplicit false

/-! ## Stages -/

/-- What a lexeme may stand inside of: the operand of a sign, a group, an argument list. -/
inductive Nesting where
  | sign | group | call
  deriving DecidableEq

/-- Where the reading of an expression is, with all that is open there, the innermost first. -/
inductive Stage where
  /-- An operand is due. -/
  | due (nesting : List Nesting)
  /-- An argument list was opened just now, and it is the innermost. -/
  | opened (nesting : List Nesting)
  /-- A name was read, and an argument list may follow. -/
  | named (nesting : List Nesting)
  /-- An operand is complete. -/
  | complete (nesting : List Nesting)

namespace Stage

/-- One thing more is open, if there is room for it. -/
def nest (inner : Nesting) (nesting : List Nesting) : Option (List Nesting) :=
  if nesting.length < maxNesting then some (inner :: nesting) else none

/-- The stage behind a lexeme that opens an operand. -/
def operand (nesting : List Nesting) : Lexeme → Option Stage
  | .number _ _ => some (complete nesting)
  | .name _ => some (named nesting)
  | .symbol .leftParen => (nest .group nesting).map due
  | .symbol written =>
    match PrefixOp.ofSymbol? written with
    | some _ => (nest .sign nesting).map due
    | none => none
  | .blank => none

/-- The stage behind a lexeme that follows a complete operand.  A sign ends with its operand. -/
def behind : List Nesting → Lexeme → Option Stage
  | .sign :: outer, lexeme => behind outer lexeme
  | [], lexeme => if lexeme.binary?.isSome then some (due []) else none
  | .group :: outer, lexeme =>
    if lexeme.binary?.isSome then some (due (.group :: outer))
    else if lexeme = .symbol .rightParen then some (complete outer)
    else none
  | .call :: outer, lexeme =>
    if lexeme.binary?.isSome then some (due (.call :: outer))
    else if lexeme = .symbol .comma then some (due (.call :: outer))
    else if lexeme = .symbol .rightParen then some (complete outer)
    else none

/-- One lexeme further, or nothing where the lexeme cannot stand. -/
def step : Stage → Lexeme → Option Stage
  | due nesting, lexeme => operand nesting lexeme
  | opened nesting, .symbol .rightParen => some (complete nesting.tail)
  | opened nesting, lexeme => operand nesting lexeme
  | named nesting, .symbol .leftParen => (nest .call nesting).map opened
  | named nesting, lexeme => behind nesting lexeme
  | complete nesting, lexeme => behind nesting lexeme

/-- All the lexemes. -/
def run (stage : Stage) (lexemes : List Placed) : Option Stage :=
  lexemes.foldlM (fun stage placed => stage.step placed.lexeme) stage

/-- Nothing but signs is open. -/
def Closed : List Nesting → Prop
  | [] => True
  | .sign :: outer => Closed outer
  | _ => False

/-- The expression may end here. -/
def Final : Stage → Prop
  | named nesting | complete nesting => Closed nesting
  | _ => False

theorem run_append (stage : Stage) (before after : List Placed) :
    stage.run (before ++ after) = (stage.run before).bind fun last => last.run after :=
  List.foldlM_append

theorem run_cons (stage : Stage) (placed : Placed) (rest : List Placed) :
    stage.run (placed :: rest) = (stage.step placed.lexeme).bind fun next => next.run rest :=
  List.foldlM_cons

theorem step_opened (nesting : List Nesting) {lexeme : Lexeme}
    (stays : lexeme ≠ .symbol .rightParen) :
    (opened nesting).step lexeme = (due nesting).step lexeme := by
  unfold step
  split <;> simp_all

theorem run_opened (nesting : List Nesting) {first : Placed} (rest : List Placed)
    (stays : first.lexeme ≠ .symbol .rightParen) :
    (opened nesting).run (first :: rest) = (due nesting).run (first :: rest) := by
  rw [run_cons, run_cons, step_opened nesting stays]

theorem step_named (nesting : List Nesting) {lexeme : Lexeme}
    (noCall : lexeme ≠ .symbol .leftParen) :
    (named nesting).step lexeme = (complete nesting).step lexeme := by
  unfold step
  split <;> simp_all

/-! ## Every stage can be gone on with -/

/-- Behind a complete operand, closing parentheses lead to the end. -/
theorem exists_run_complete (nesting : List Nesting) :
    ∃ more last, (complete nesting).run more = some last ∧ last.Final ∧
      ∀ placed ∈ more, placed.lexeme = .symbol .rightParen := by
  induction nesting with
  | nil => exact ⟨[], _, rfl, trivial, by simp⟩
  | cons inner outer ih =>
    obtain ⟨more, last, ran, final, closing⟩ := ih
    have closed : ∀ placed ∈ ⟨.symbol .rightParen, 0⟩ :: more,
        Placed.lexeme placed = .symbol .rightParen :=
      List.forall_mem_cons.mpr ⟨rfl, closing⟩
    cases inner with
    | group => exact ⟨⟨.symbol .rightParen, 0⟩ :: more, last, ran, final, closed⟩
    | call => exact ⟨⟨.symbol .rightParen, 0⟩ :: more, last, ran, final, closed⟩
    | sign =>
      -- The sign ends with its operand, so what ends the operand ends the sign.
      cases more with
      | nil =>
        cases ran
        exact ⟨[], _, rfl, final, by simp⟩
      | cons placed more => exact ⟨placed :: more, last, ran, final, closing⟩

theorem exists_run (stage : Stage) : ∃ more last, stage.run more = some last ∧ last.Final := by
  cases stage with
  | due nesting =>
    obtain ⟨more, last, ran, final, -⟩ := exists_run_complete nesting
    exact ⟨⟨.number .integer "1", 0⟩ :: more, last, ran, final⟩
  | opened nesting =>
    obtain ⟨more, last, ran, final, -⟩ := exists_run_complete nesting.tail
    exact ⟨⟨.symbol .rightParen, 0⟩ :: more, last, ran, final⟩
  | complete nesting =>
    obtain ⟨more, last, ran, final, -⟩ := exists_run_complete nesting
    exact ⟨more, last, ran, final⟩
  | named nesting =>
    obtain ⟨more, last, ran, final, closing⟩ := exists_run_complete nesting
    cases more with
    | nil =>
      cases ran
      exact ⟨[], _, rfl, final⟩
    | cons placed more =>
      have noCall : placed.lexeme ≠ .symbol .leftParen := by
        rw [closing placed List.mem_cons_self]
        decide
      refine ⟨placed :: more, last, ?_, final⟩
      rw [run_cons, step_named _ noCall, ← run_cons]
      exact ran

/-! ## Behind an operand -/

/-- An operand that was due with `nesting` open is complete, and what is left does not open an
argument list for a name at its end. -/
def Behind (nesting : List Nesting) (rest : List Placed) (stage : Stage) : Prop :=
  ∃ signs, stage = complete (List.replicate signs .sign ++ nesting) ∨
    stage = named (List.replicate signs .sign ++ nesting) ∧
      ∀ placed ∈ rest.head?, placed.lexeme ≠ .symbol .leftParen

theorem not_behind_due {nesting nesting' : List Nesting} {rest : List Placed} :
    ¬Behind nesting rest (due nesting') := by
  rintro ⟨signs, shape | ⟨shape, -⟩⟩ <;> cases shape

theorem behind_signs (signs : Nat) (nesting : List Nesting) (lexeme : Lexeme) :
    behind (List.replicate signs .sign ++ nesting) lexeme = behind nesting lexeme := by
  induction signs with
  | zero => rfl
  | succ signs ih => exact ih

theorem closed_signs (signs : Nat) (nesting : List Nesting) :
    Closed (List.replicate signs .sign ++ nesting) ↔ Closed nesting := by
  induction signs with
  | zero => rfl
  | succ signs ih => exact ih

namespace Behind
variable {nesting : List Nesting} {rest : List Placed} {stage : Stage}

theorem step {placed : Placed} (done : Behind nesting (placed :: rest) stage) :
    stage.step placed.lexeme = behind nesting placed.lexeme := by
  obtain ⟨signs, rfl | ⟨rfl, noCall⟩⟩ := done
  · exact behind_signs signs nesting _
  · rw [step_named _ (noCall placed rfl)]
    exact behind_signs signs nesting _

theorem final_iff (done : Behind nesting rest stage) : stage.Final ↔ Closed nesting := by
  obtain ⟨signs, rfl | ⟨rfl, -⟩⟩ := done <;> exact closed_signs signs nesting

/-- A sign is complete with its operand. -/
theorem sign (done : Behind (.sign :: nesting) rest stage) : Behind nesting rest stage := by
  obtain ⟨signs, shape⟩ := done
  refine ⟨signs + 1, ?_⟩
  rwa [List.replicate_succ', List.append_assoc, List.singleton_append]

/-- Behind an operand that is not signed, an operator asks for another operand. -/
theorem step_binary {placed : Placed} {op : BinaryOp}
    (done : Behind nesting (placed :: rest) stage) (unsigned : nesting.head? ≠ some .sign)
    (written : placed.lexeme.binary? = some op) :
    stage.step placed.lexeme = some (due nesting) := by
  rw [done.step]
  match nesting with
  | [] => simp [behind, written]
  | .sign :: _ => exact absurd rfl unsigned
  | .group :: _ => simp [behind, written]
  | .call :: _ => simp [behind, written]

end Behind

end Stage

end Reckon.Expr
