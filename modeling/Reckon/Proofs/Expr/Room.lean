/- Reckon.Proofs.Expr.Room — what less room for nesting changes

A parser with less room gives the same answer, or it says that something is nested too deeply
(`narrows_unary`): there is one lemma for each parser, and an induction on the room that is left.
So lexemes that are an expression, but not within the room that there is, are refused as nested
too deeply (`ofLexemes_of_deeper`).
-/
import Reckon.Proofs.Expr.Recognition

namespace Reckon.Expr
set_option autoImplicit false

/-- The outcome is that of a parser with more room, or says that there is too little. -/
def Limits {α : Type} (ample outcome : Except SourceFault α) : Prop :=
  outcome = ample ∨ ∃ position, outcome = .error (.nestingTooDeep position)

theorem Limits.refl {α : Type} (outcome : Except SourceFault α) : Limits outcome outcome := .inl rfl

theorem Limits.tooDeep {α : Type} (ample : Except SourceFault α) (position : Nat) :
    Limits ample (.error (.nestingTooDeep position)) := .inr ⟨position, rfl⟩

theorem Limits.trans {α : Type} {ample middle outcome : Except SourceFault α}
    (limits : Limits ample middle) (limits' : Limits middle outcome) : Limits ample outcome := by
  rcases limits' with rfl | deep
  · exact limits
  · exact .inr deep

/-- What is read with less room is read with more. -/
theorem Limits.read {α : Type} {ample : Except SourceFault α} {result : α}
    (limits : Limits ample (.ok result)) : ample = .ok result := by
  rcases limits with same | ⟨position, deep⟩
  · exact same.symm
  · cases deep

/-- The second parser answers as the first one does, or finds too little room. -/
def Narrows (ample parser : Parser Expr) : Prop := ∀ input, Limits (ample input) (parser input)

section Chain
variable {accepts : BinaryOp → Bool} {ample parser : Parser Expr}

theorem Narrows.read (narrows : Narrows ample parser) {input : List Placed}
    {result : Expr × Shorter input} (took : parser input = .ok result) :
    ample input = .ok result := by
  have limits := narrows input
  rw [took] at limits
  exact limits.read

theorem limits_chainFrom (narrows : Narrows ample parser) {start : List Placed}
    (input : Shorter start) (tree : Expr) :
    Limits (chainFrom accepts ample tree input) (chainFrom accepts parser tree input) := by
  fun_induction chainFrom accepts parser tree input with
  | case1 tree shorter =>
    rw [chainFrom]
    exact .refl _
  | case2 tree placed rest shorter other =>
    rw [chainFrom]
    simp only [other]
    exact .refl _
  | case3 tree placed rest shorter op accepted fault stopped =>
    rw [chainFrom]
    rcases narrows rest with same | ⟨position, deep⟩
    · simp only [accepted, ← same, stopped]
      exact .refl _
    · rw [stopped] at deep
      exact .inr ⟨position, congrArg Except.error (Except.error.inj deep)⟩
  | case4 tree placed rest shorter op accepted right rest' shorter' took ih =>
    rw [chainFrom]
    simp only [accepted, narrows.read took]
    exact ih

theorem narrows_chain (narrows : Narrows ample parser) :
    Narrows (chain accepts ample) (chain accepts parser) := by
  intro input
  unfold chain
  rcases narrows input with same | ⟨position, deep⟩
  · rw [same]
    cases ample input with
    | error fault => exact .refl _
    | ok read => exact limits_chainFrom narrows read.2 read.1
  · rw [deep]
    exact .tooDeep _ position

theorem narrows_expression (narrows : Narrows ample parser) :
    Narrows (expression ample) (expression parser) := by
  have ladders (height : Nat) : Narrows (ladder ample height) (ladder parser height) := by
    induction height with
    | zero => exact narrows
    | succ height ih => exact narrows_chain ih
  exact ladders _

theorem limits_skipArguments (narrows : Narrows ample parser) {start : List Placed}
    (input : Shorter start) : Limits (skipArguments ample input) (skipArguments parser input) := by
  fun_induction skipArguments parser input with
  | case1 input fault stopped =>
    rcases narrows input.val with same | ⟨position, deep⟩
    · rw [skipArguments]
      simp only [← same, stopped]
      exact .refl _
    · rw [stopped] at deep
      exact .inr ⟨position, congrArg Except.error (Except.error.inj deep)⟩
  | case2 input tree shorter took =>
    rw [skipArguments]
    simp only [narrows.read took]
    exact .refl _
  | case3 input tree placed rest shorter took within comma ih =>
    rw [skipArguments]
    simp only [narrows.read took, if_pos comma]
    exact ih
  | case4 input tree placed rest shorter took within notComma closes =>
    rw [skipArguments]
    simp only [narrows.read took, if_neg notComma, if_pos closes]
    exact .refl _
  | case5 input tree placed rest shorter took within notComma notClosing =>
    rw [skipArguments]
    simp only [narrows.read took, if_neg notComma, if_neg notClosing]
    exact .refl _

end Chain

section Nested
variable {ample deeper : Option (Parser Expr)} {start : List Placed}

/-- The parser of the nested parts narrows another, unless there is none. -/
def NarrowsBelow (ample deeper : Option (Parser Expr)) : Prop :=
  ∀ parser ∈ deeper, ∃ wide ∈ ample, Narrows wide parser

theorem limits_callRest (below : NarrowsBelow ample deeper) (opened : Nat)
    (input : Shorter start) : Limits (callRest ample opened input) (callRest deeper opened input) := by
  cases deeper with
  | none => exact .tooDeep _ opened
  | some parser =>
    obtain ⟨wide, rfl, narrows⟩ := below parser rfl
    simp only [callRest]
    split
    · exact .refl _
    · exact limits_skipArguments (narrows_expression narrows) _

theorem limits_groupRest (below : NarrowsBelow ample deeper) (opened : Nat)
    (input : Shorter start) :
    Limits (groupRest ample opened input) (groupRest deeper opened input) := by
  cases deeper with
  | none => exact .tooDeep _ opened
  | some parser =>
    obtain ⟨wide, rfl, narrows⟩ := below parser rfl
    unfold groupRest
    dsimp only
    rcases narrows_expression narrows input.val with same | ⟨position, deep⟩
    · rw [same]
      exact .refl _
    · rw [deep]
      exact .tooDeep _ position

theorem limits_signedRest (below : NarrowsBelow ample deeper) (op : PrefixOp) (position : Nat)
    (input : Shorter start) :
    Limits (signedRest ample op position input) (signedRest deeper op position input) := by
  cases deeper with
  | none => exact .tooDeep _ position
  | some parser =>
    obtain ⟨wide, rfl, narrows⟩ := below parser rfl
    unfold signedRest
    dsimp only
    rcases narrows input.val with same | ⟨position', deep⟩
    · rw [same]
      exact .refl _
    · rw [deep]
      exact .tooDeep _ position'

theorem narrows_unaryOver (below : NarrowsBelow ample deeper) :
    Narrows (unaryOver ample) (unaryOver deeper) := by
  intro input
  unfold unaryOver
  split
  · exact .refl _
  · rename_i lexeme position rest
    split
    · exact .refl _
    · split
      · rename_i opened inside
        rcases limits_callRest below opened _ with same | ⟨position', deep⟩
        · rw [same]
          exact .refl _
        · rw [deep]
          exact .tooDeep _ position'
      · exact .refl _
    · exact limits_groupRest below position _
    · split
      · exact limits_signedRest below _ position _
      · exact .refl _
    · exact .refl _

end Nested

/-- One more level of room changes nothing but that there may be enough of it. -/
theorem narrows_succ : ∀ room, Narrows (unary (room + 1)) (unary room)
  | 0 => narrows_unaryOver fun _ member => absurd member (Option.not_mem_none _)
  | room + 1 => narrows_unaryOver fun _ some => by
      cases some
      exact ⟨_, rfl, narrows_succ room⟩

theorem narrows_unary {room room' : Nat} (le : room ≤ room') :
    Narrows (unary room') (unary room) := by
  induction le with
  | refl => exact fun _ => .refl _
  | step _ ih => exact fun input => (narrows_succ _ input).trans (ih input)

/-- What is an expression only if nested deeper than is allowed is refused for its nesting. -/
theorem ofLexemes_of_deeper {room : Nat} {lexemes : List Placed} {tree : Expr}
    (derived : Derives room .or lexemes tree) (deeper : ¬Derives maxNesting .or lexemes tree) :
    ∃ position, ofLexemes lexemes = .error (.nestingTooDeep position) := by
  have wide : room ≤ room + maxNesting := Nat.le_add_right _ _
  have read := (readAs_of_derives (derived.mono wide)).reads [] trivial
  rw [List.append_nil] at read
  obtain ⟨shorter, read⟩ := read
  have narrows := narrows_expression (narrows_unary (Nat.le_add_left maxNesting room)) lexemes
  rcases narrows with same | ⟨position, deep⟩
  · refine absurd ((ofLexemes_eq_ok_iff lexemes tree).mp ?_) deeper
    rw [ofLexemes, same]
    simp [show expression (unary (room + maxNesting)) lexemes = _ from read]
  · exact ⟨position, by rw [ofLexemes, deep]⟩

end Reckon.Expr
