/- Reckon.Proofs.Expr.Relocation — offsets are reported and used for nothing else

Replace the offset of every lexeme by another one.  A parser then reads the tree with the
offsets of its nodes replaced in the same way, and leaves as much, or it fails with the fault
whose offset is replaced (`moves_unary`, one lemma for each parser).  No parser compares two
offsets or computes one, so nothing is asked of the function that replaces them
(`ofLexemes_relocate`).

The same holds of the formula that a tree asks for (`formula_relocate`).  What is computed has no
offsets, so it depends on the lexemes alone (`formula_of_same_lexemes`).
-/
import Reckon.Proofs.Expr.Formula
import Reckon.Proofs.Lexeme.Surroundings

namespace Reckon.Expr
set_option autoImplicit false

/-- The tree with the offset of every node replaced. -/
def relocate (place : Nat → Nat) : Expr → Expr
  | literal form text position => literal form text (place position)
  | name text position => name text (place position)
  | call callee position => call callee (place position)
  | group inner position => group (inner.relocate place) (place position)
  | signed op operand position => signed op (operand.relocate place) (place position)
  | binary left op right position =>
      binary (left.relocate place) op (right.relocate place) (place position)

/-! ## Parsers -/

/-- The second outcome is the first one with its offsets replaced: a value by `same`, a fault by
its own offset. -/
inductive Moved (place : Nat → Nat) {α β : Type} (same : α → β → Prop) :
    Except SourceFault α → Except SourceFault β → Prop where
  | ok {read : α} {read' : β} (moved : same read read') : Moved place same (.ok read) (.ok read')
  | error (fault : SourceFault) : Moved place same (.error fault) (.error (fault.relocate place))

section Parsers
variable {place : Nat → Nat} {start start' : List Placed}

/-- The lexemes that are left are the same ones. -/
def SameRest (place : Nat → Nat) (rest : Shorter start) (rest' : Shorter start') : Prop :=
  rest'.val = rest.val.map (Placed.relocate place)

/-- The tree is the same, and so are the lexemes that are left. -/
def SameRead (place : Nat → Nat) (read : Expr × Shorter start) (read' : Expr × Shorter start') :
    Prop :=
  read'.1 = read.1.relocate place ∧ SameRest place read.2 read'.2

/-- The parser moves with the offsets of its input. -/
def Moves (place : Nat → Nat) (parser : Parser Expr) : Prop := ∀ input,
  Moved place (SameRead place) (parser input) (parser (input.map (Placed.relocate place)))

section Chain
variable {accepts : BinaryOp → Bool} {parser : Parser Expr}

theorem Moves.stops (moves : Moves place parser) {input : List Placed} {fault : SourceFault}
    (stopped : parser input = .error fault) :
    parser (input.map (Placed.relocate place)) = .error (fault.relocate place) := by
  have moved := moves input
  generalize parser (input.map (Placed.relocate place)) = outcome at moved
  rw [stopped] at moved
  cases moved
  rfl

theorem Moves.reads (moves : Moves place parser) {input rest : List Placed} {tree : Expr}
    {shorter : rest.length < input.length} (took : parser input = .ok (tree, ⟨rest, shorter⟩)) :
    ∃ shorter', parser (input.map (Placed.relocate place)) =
      .ok (tree.relocate place, ⟨rest.map (Placed.relocate place), shorter'⟩) := by
  have moved := moves input
  generalize parser (input.map (Placed.relocate place)) = outcome at moved
  rw [took] at moved
  cases moved with
  | @ok _ read moved =>
    obtain ⟨tree', lexemes, shorter'⟩ := read
    obtain ⟨rfl, rfl⟩ : tree' = _ ∧ lexemes = _ := moved
    exact ⟨shorter', rfl⟩

theorem moved_chainFrom (moves : Moves place parser) (tree : Expr) (input : Shorter start)
    (input' : Shorter start') (same : SameRest place input input') :
    Moved place (SameRead place) (chainFrom accepts parser tree input)
      (chainFrom accepts parser (tree.relocate place) input') := by
  obtain ⟨lexemes', shorter'⟩ := input'
  obtain rfl : lexemes' = _ := same
  fun_induction chainFrom accepts parser tree input generalizing start' with
  | case1 tree shorter =>
    simp only [List.map_nil] at shorter' ⊢
    rw [chainFrom]
    exact .ok ⟨rfl, rfl⟩
  | case2 tree placed rest shorter other =>
    simp only [List.map_cons] at shorter' ⊢
    rw [chainFrom]
    simp only [Placed.relocate, other]
    exact .ok ⟨rfl, rfl⟩
  | case3 tree placed rest shorter op accepted fault stopped =>
    simp only [List.map_cons] at shorter' ⊢
    rw [chainFrom]
    simp only [Placed.relocate, accepted, moves.stops stopped]
    exact .error fault
  | case4 tree placed rest shorter op accepted right rest' behind took ih =>
    obtain ⟨behind', took'⟩ := moves.reads took
    simp only [List.map_cons] at shorter' ⊢
    rw [chainFrom]
    simp only [Placed.relocate, accepted, took']
    exact ih _

theorem moves_chain (moves : Moves place parser) : Moves place (chain accepts parser) := by
  intro input
  unfold chain
  cases outcome : parser input with
  | error fault =>
    rw [moves.stops outcome]
    exact .error fault
  | ok read =>
    obtain ⟨shorter', took⟩ := moves.reads outcome
    rw [took]
    exact moved_chainFrom moves _ _ _ rfl

theorem moves_expression (moves : Moves place parser) : Moves place (expression parser) := by
  have ladders (height : Nat) : Moves place (ladder parser height) := by
    induction height with
    | zero => exact moves
    | succ height ih => exact moves_chain ih
  exact ladders _

theorem moved_skipArguments (moves : Moves place parser) (input : Shorter start)
    (input' : Shorter start') (same : SameRest place input input') :
    Moved place (SameRest place) (skipArguments parser input) (skipArguments parser input') := by
  obtain ⟨lexemes', shorter'⟩ := input'
  obtain rfl : lexemes' = _ := same
  fun_induction skipArguments parser input generalizing start' with
  | case1 input fault stopped =>
    rw [skipArguments]
    simp only [moves.stops stopped]
    exact .error fault
  | case2 input tree shorter took =>
    obtain ⟨behind, took'⟩ := moves.reads took
    rw [skipArguments]
    simp only [took', List.map_nil]
    exact .error .endOfText
  | case3 input tree placed rest shorter took within comma ih =>
    obtain ⟨behind, took'⟩ := moves.reads took
    rw [skipArguments.eq_def parser ⟨input.val.map (Placed.relocate place), shorter'⟩]
    simp only [took', List.map_cons, Placed.relocate, if_pos comma]
    exact ih _
  | case4 input tree placed rest shorter took within notComma closes =>
    obtain ⟨behind, took'⟩ := moves.reads took
    rw [skipArguments]
    simp only [took', List.map_cons, Placed.relocate, if_neg notComma, if_pos closes]
    exact .ok rfl
  | case5 input tree placed rest shorter took within notComma notClosing =>
    obtain ⟨behind, took'⟩ := moves.reads took
    rw [skipArguments]
    simp only [took', List.map_cons, Placed.relocate, if_neg notComma, if_neg notClosing]
    exact .error (.unexpectedLexeme _ placed.position)

end Chain

section Nested
variable {deeper : Option (Parser Expr)}

/-- The parser of the nested parts moves, if there is one. -/
def MovesBelow (place : Nat → Nat) (deeper : Option (Parser Expr)) : Prop :=
  ∀ parser ∈ deeper, Moves place parser

theorem moved_callRest (below : MovesBelow place deeper) (opened : Nat) (input : Shorter start)
    (input' : Shorter start') (same : SameRest place input input') :
    Moved place (SameRest place) (callRest deeper opened input)
      (callRest deeper (place opened) input') := by
  cases deeper with
  | none => exact .error (.nestingTooDeep opened)
  | some parser =>
    obtain ⟨lexemes, shorter⟩ := input
    obtain ⟨lexemes', shorter'⟩ := input'
    obtain rfl : lexemes' = _ := same
    have skipped := moved_skipArguments (moves_expression (below parser rfl)) ⟨lexemes, shorter⟩
      ⟨lexemes.map (Placed.relocate place), shorter'⟩ rfl
    cases lexemes with
    | nil => exact skipped
    | cons placed rest =>
      obtain ⟨lexeme, position⟩ := placed
      by_cases closes : lexeme = .symbol .rightParen
      · subst closes
        exact .ok rfl
      · simp only [List.map_cons, Placed.relocate] at shorter' skipped ⊢
        simp only [callRest]
        split
        · rename_i same
          cases same
          exact absurd rfl closes
        · split
          · rename_i same
            cases same
            exact absurd rfl closes
          · exact skipped

theorem moved_groupRest (below : MovesBelow place deeper) (opened : Nat) (input : Shorter start)
    (input' : Shorter start') (same : SameRest place input input') :
    Moved place (SameRead place) (groupRest deeper opened input)
      (groupRest deeper (place opened) input') := by
  cases deeper with
  | none => exact .error (.nestingTooDeep opened)
  | some parser =>
    obtain ⟨lexemes', shorter'⟩ := input'
    obtain rfl : lexemes' = _ := same
    have moves := moves_expression (below parser rfl)
    unfold groupRest
    dsimp only
    cases outcome : expression parser input.val with
    | error fault =>
      rw [moves.stops outcome]
      exact .error fault
    | ok read =>
      obtain ⟨tree, rest, shorter⟩ := read
      obtain ⟨behind, took⟩ := moves.reads outcome
      rw [took]
      cases rest with
      | nil => exact .error (.unclosedGroup opened)
      | cons placed rest =>
        simp only [List.map_cons, Placed.relocate]
        split
        · exact .ok ⟨rfl, rfl⟩
        · exact .error (.unexpectedLexeme _ placed.position)

theorem moved_signedRest (below : MovesBelow place deeper) (op : PrefixOp) (position : Nat)
    (input : Shorter start) (input' : Shorter start') (same : SameRest place input input') :
    Moved place (SameRead place) (signedRest deeper op position input)
      (signedRest deeper op (place position) input') := by
  cases deeper with
  | none => exact .error (.nestingTooDeep position)
  | some parser =>
    obtain ⟨lexemes', shorter'⟩ := input'
    obtain rfl : lexemes' = _ := same
    have moves := below parser rfl
    unfold signedRest
    dsimp only
    cases outcome : parser input.val with
    | error fault =>
      rw [moves.stops outcome]
      exact .error fault
    | ok read =>
      obtain ⟨tree, rest, shorter⟩ := read
      obtain ⟨behind, took⟩ := moves.reads outcome
      rw [took]
      exact .ok ⟨rfl, rfl⟩

theorem moved_call (below : MovesBelow place deeper) (text : String) (position opened : Nat)
    (inside : List Placed) :
    Moved place (SameRead place)
      (unaryOver deeper (⟨.name text, position⟩ :: ⟨.symbol .leftParen, opened⟩ :: inside))
      (unaryOver deeper (⟨.name text, place position⟩ :: ⟨.symbol .leftParen, place opened⟩ ::
        inside.map (Placed.relocate place))) := by
  let behind (first second : Placed) (rest : List Placed) : Shorter (first :: second :: rest) :=
    ⟨rest, Nat.lt_trans (Nat.lt_succ_self _) (Nat.lt_succ_self _)⟩
  have called : Moved place (SameRest place) _ _ :=
    moved_callRest below opened (behind ⟨.name text, position⟩ ⟨.symbol .leftParen, opened⟩ inside)
      (behind ⟨.name text, place position⟩ ⟨.symbol .leftParen, place opened⟩
        (inside.map (Placed.relocate place))) rfl
  simp only [unaryOver]
  dsimp only [behind] at called
  generalize callRest deeper opened _ = outcome at called ⊢
  generalize callRest deeper (place opened) _ = outcome' at called ⊢
  cases called with
  | ok same => exact .ok ⟨rfl, same⟩
  | error fault => exact .error fault

theorem moves_unaryOver (below : MovesBelow place deeper) : Moves place (unaryOver deeper) := by
  intro input
  cases input with
  | nil => exact .error .endOfText
  | cons placed rest =>
    obtain ⟨lexeme, position⟩ := placed
    cases lexeme with
    | number form text => exact .ok ⟨rfl, rfl⟩
    | blank => exact .error (.unexpectedLexeme _ position)
    | name text =>
      rcases rest with - | ⟨⟨next, opened⟩, inside⟩
      · exact .ok ⟨rfl, rfl⟩
      cases next with
      | symbol written =>
        cases written with
        | leftParen => exact moved_call below text position opened inside
        | _ => exact .ok ⟨rfl, rfl⟩
      | _ => exact .ok ⟨rfl, rfl⟩
    | symbol written =>
      cases written with
      | leftParen => exact moved_groupRest below position _ _ rfl
      | minus | plus | bang => exact moved_signedRest below _ position _ _ rfl
      | _ => exact .error (.unexpectedLexeme _ position)

end Nested

theorem moves_unary : ∀ room, Moves place (unary room)
  | 0 => moves_unaryOver fun _ member => absurd member (Option.not_mem_none _)
  | room + 1 => moves_unaryOver fun _ some => by
      cases some
      exact moves_unary room

end Parsers

/-! ## Whole texts -/

/-- Lexemes at other offsets are the same expression at these offsets, or are refused for the same
fault there. -/
theorem ofLexemes_relocate (place : Nat → Nat) (lexemes : List Placed) :
    ofLexemes (lexemes.map (Placed.relocate place)) =
      ((ofLexemes lexemes).map (relocate place)).mapError (SourceFault.relocate place) := by
  have moves : Moves place (expression (unary maxNesting)) := moves_expression (moves_unary _)
  unfold ofLexemes
  cases outcome : expression (unary maxNesting) lexemes with
  | error fault =>
    rw [moves.stops outcome]
    rfl
  | ok read =>
    obtain ⟨tree, rest, shorter⟩ := read
    obtain ⟨shorter', took⟩ := moves.reads outcome
    rw [took]
    cases rest <;> rfl

theorem literalValue_relocate (place : Nat → Nat) (form : NumberForm) (text : String)
    (position : Nat) :
    literalValue form text (place position) =
      (literalValue form text position).mapError (SourceFault.relocate place) := by
  cases form with
  | integer => unfold literalValue; cases Number.readInteger? text <;> rfl
  | real => unfold literalValue; cases Number.read? text <;> rfl
  | other => rfl

/-- A tree computes the same at other offsets, or asks there for the same that is not computed. -/
theorem formula_relocate (place : Nat → Nat) (tree : Expr) :
    (tree.relocate place).formula = tree.formula.mapError (SourceFault.relocate place) := by
  induction tree with
  | literal form text position =>
    rw [relocate, formula, formula, literalValue_relocate]
    cases literalValue form text position <;> rfl
  | name text position => rfl
  | call callee position => rfl
  | signed op operand position _ => rfl
  | group inner position ih =>
    rw [relocate, formula, formula, ih]
    cases inner.formula <;> rfl
  | binary left op right position ihLeft ihRight =>
    rw [relocate, formula, formula, ihLeft, ihRight]
    cases op.operation? with
    | none => rfl
    | some operation =>
      cases left.formula with
      | error fault => rfl
      | ok before => cases right.formula <;> rfl

/-- The same lexemes come to the same formula, wherever they stand. -/
theorem formula_of_same_lexemes {lexemes lexemes' : List Placed} {tree : Expr} {formula : Formula}
    (same : lexemes'.map Placed.lexeme = lexemes.map Placed.lexeme)
    (parsed : ofLexemes lexemes = .ok tree) (computed : tree.formula = .ok formula) :
    ∃ tree', ofLexemes lexemes' = .ok tree' ∧ tree'.formula = .ok formula := by
  -- With all offsets at zero the two lists are the same.
  have nowhere (lexemes : List Placed) : lexemes.map (Placed.relocate fun _ => 0) =
      (lexemes.map Placed.lexeme).map fun lexeme => ⟨lexeme, 0⟩ := by
    rw [List.map_map]
    rfl
  have read := ofLexemes_relocate (fun _ => 0) lexemes
  have read' := ofLexemes_relocate (fun _ => 0) lexemes'
  rw [nowhere, ← same, ← nowhere, read', parsed] at read
  cases outcome : ofLexemes lexemes' with
  | error fault => simp [outcome, Except.map, Except.mapError] at read
  | ok tree' =>
    have trees : tree'.relocate (fun _ => 0) = tree.relocate fun _ => 0 := by
      simpa [outcome, Except.map, Except.mapError] using read
    have formulas := formula_relocate (fun _ => 0) tree'
    rw [trees, formula_relocate, computed] at formulas
    refine ⟨tree', rfl, ?_⟩
    cases computed' : tree'.formula with
    | error fault => simp [computed', Except.mapError] at formulas
    | ok formula' => simpa [computed', Except.mapError] using formulas.symm

end Reckon.Expr
