/- Reckon.Proofs.Expr.Unclosed — which group is not closed

A group is found to be open where the lexemes come to an end, so what stands behind its opening
parenthesis was read as an expression, with balanced parentheses, to the very end.  The
parenthesis that the fault shows is therefore the last one that nothing closes
(`leftOpen_of_ofLexemes`).
-/
import Reckon.Proofs.Expr.Blame
import Reckon.Proofs.Expr.Nesting

namespace Reckon.Expr
set_option autoImplicit false

open Lexeme (parentheses)
open Postfix (Balanced)

/-- The parenthesis that opens at the offset is the last one that nothing closes. -/
def LeftOpen (position : Nat) (lexemes : List Placed) : Prop :=
  ∃ before inner, lexemes = before ++ ⟨.symbol .leftParen, position⟩ :: inner ∧
    Balanced (parentheses inner)

theorem LeftOpen.of_suffix {position : Nat} {rest lexemes : List Placed}
    (leftOpen : LeftOpen position rest) (suffix : rest <:+ lexemes) :
    LeftOpen position lexemes := by
  obtain ⟨before, inner, rfl, balanced⟩ := leftOpen
  obtain ⟨front, rfl⟩ := suffix
  exact ⟨front ++ before, inner, (List.append_assoc _ _ _).symm, balanced⟩

/-- A group that the parser finds to be open is the last one. -/
def ShowsOpen (parser : Parser Expr) : Prop :=
  ∀ (input : List Placed) (position : Nat),
    parser input = .error (.unclosedGroup position) → LeftOpen position input

section Chain
variable {accepts : BinaryOp → Bool} {operand : Parser Expr} {position : Nat}

theorem chainFrom_open (traceable : Traceable operand) (shows : ShowsOpen operand)
    {start : List Placed} {input : Shorter start} {tree : Expr}
    (failed : chainFrom accepts operand tree input = .error (.unclosedGroup position)) :
    LeftOpen position input.val := by
  fun_induction chainFrom accepts operand tree input with
  | case1 => cases failed
  | case2 => cases failed
  | case3 tree placed behind shorter op accepted fault stopped =>
    cases failed
    exact (shows _ _ stopped).of_suffix (List.suffix_cons _ _)
  | case4 tree placed behind shorter op accepted right rest' shorter' took ih =>
    have suffix : rest' <:+ behind := traceable.rest took
    exact (ih failed).of_suffix (suffix.trans (List.suffix_cons _ _))

theorem showsOpen_chain (traceable : Traceable operand) (shows : ShowsOpen operand) :
    ShowsOpen (chain accepts operand) := by
  intro input position failed
  unfold chain at failed
  split at failed
  · rename_i stopped
    cases failed
    exact shows _ _ stopped
  · rename_i first behind took
    exact (chainFrom_open traceable shows failed).of_suffix (traceable.rest took)

theorem showsOpen_expression (traceable : Traceable operand) (shows : ShowsOpen operand) :
    ShowsOpen (expression operand) := by
  have ladders (height : Nat) :
      Traceable (ladder operand height) ∧ ShowsOpen (ladder operand height) := by
    induction height with
    | zero => exact ⟨traceable, shows⟩
    | succ height ih => exact ⟨traceable_chain ih.1, showsOpen_chain ih.1 ih.2⟩
  exact (ladders _).2

theorem skipArguments_open {argument : Parser Expr} (traceable : Traceable argument)
    (shows : ShowsOpen argument) {start : List Placed} {input : Shorter start}
    (failed : skipArguments argument input = .error (.unclosedGroup position)) :
    LeftOpen position input.val := by
  fun_induction skipArguments argument input with
  | case1 input fault stopped =>
    cases failed
    exact shows _ _ stopped
  | case2 => cases failed
  | case3 input tree placed behind shorter took within comma ih =>
    exact (ih failed).of_suffix ((List.suffix_cons _ _).trans (traceable.rest took))
  | case4 => cases failed
  | case5 => cases failed

end Chain

/-- The parser of the nested parts reads unary expressions and shows the last open group. -/
structure Nests (parser : Parser Expr) : Prop where
  traceable : Traceable parser
  sound : ∃ room, Sound room .unary parser
  shows : ShowsOpen parser

section Nested
variable {deeper : Option (Parser Expr)} {start : List Placed} {input : Shorter start}
  {position : Nat}

theorem callRest_open (below : ∀ parser ∈ deeper, Nests parser) {opened : Nat}
    (failed : callRest deeper opened input = .error (.unclosedGroup position)) :
    LeftOpen position input.val := by
  unfold callRest at failed
  split at failed
  · cases failed
  · rename_i unary
    have nests := below unary rfl
    split at failed
    · cases failed
    · exact skipArguments_open (traceable_expression nests.traceable)
        (showsOpen_expression nests.traceable nests.shows) failed

theorem groupRest_open (below : ∀ parser ∈ deeper, Nests parser) {opened : Nat}
    (failed : groupRest deeper opened input = .error (.unclosedGroup position)) :
    LeftOpen position (⟨.symbol .leftParen, opened⟩ :: input.val) := by
  unfold groupRest at failed
  split at failed
  · cases failed
  · rename_i unary
    have nests := below unary rfl
    split at failed
    · rename_i stopped
      cases failed
      exact (showsOpen_expression nests.traceable nests.shows _ _ stopped).of_suffix
        (List.suffix_cons _ _)
    · rename_i inner shorter took
      cases failed
      -- The expression inside goes to the end of the lexemes.
      obtain ⟨room, sound⟩ := nests.sound
      obtain ⟨lexemes, whole, derived⟩ := sound_expression sound ⟨_, took⟩
      rw [List.append_nil] at whole
      exact ⟨[], input.val, rfl, by rw [whole]; exact (fits_of_derives derived).balanced⟩
    · split at failed
      · cases failed
      · cases failed

theorem signedRest_open (below : ∀ parser ∈ deeper, Nests parser) {op : PrefixOp} {sign : Nat}
    (failed : signedRest deeper op sign input = .error (.unclosedGroup position)) :
    LeftOpen position input.val := by
  unfold signedRest at failed
  split at failed
  · cases failed
  · rename_i unary
    split at failed
    · rename_i stopped
      cases failed
      exact (below unary rfl).shows _ _ stopped
    · cases failed

theorem showsOpen_unaryOver (below : ∀ parser ∈ deeper, Nests parser) :
    ShowsOpen (unaryOver deeper) := by
  intro input position failed
  unfold unaryOver at failed
  split at failed
  · cases failed
  · rename_i lexeme first rest
    split at failed
    · cases failed
    · split at failed
      · split at failed
        · rename_i stopped
          cases failed
          exact (callRest_open below stopped).of_suffix
            ((List.suffix_cons _ _).trans (List.suffix_cons _ _))
        · cases failed
      · cases failed
    · exact groupRest_open below failed
    · split at failed
      · exact (signedRest_open below failed).of_suffix (List.suffix_cons _ _)
      · cases failed
    · cases failed

end Nested

theorem nests_unary : ∀ room, Nests (unary room)
  | 0 => {
      traceable := traceable_unary 0
      sound := ⟨0, sound_unary 0⟩
      shows := showsOpen_unaryOver fun _ member => absurd member (Option.not_mem_none _) }
  | room + 1 => {
      traceable := traceable_unary (room + 1)
      sound := ⟨room + 1, sound_unary (room + 1)⟩
      shows := showsOpen_unaryOver fun _ some => by
        cases some
        exact nests_unary room }

/-- A lexeme list that is refused for an open group has it at the last parenthesis that nothing
closes. -/
theorem leftOpen_of_ofLexemes {lexemes : List Placed} {position : Nat}
    (failed : ofLexemes lexemes = .error (.unclosedGroup position)) :
    LeftOpen position lexemes := by
  have nests := nests_unary maxNesting
  unfold ofLexemes at failed
  split at failed
  · rename_i stopped
    cases failed
    exact showsOpen_expression nests.traceable nests.shows _ _ stopped
  · cases failed
  · cases failed

end Reckon.Expr
