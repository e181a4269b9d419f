/- Reckon.Proofs.Expr.Viable — a fault of form shows the first lexeme that leads nowhere

A lexeme list is viable if it can be gone on with to an expression.  A fault of
form that shows a lexeme shows the first one with which the list stops being
viable, and a fault that says that the text ends too early is found only in a
list that is viable as a whole (`fault_shows_first_dead_lexeme`).

The proof is by stages.  Each parser agrees with them (`Agrees`): it leaves its
input where the operand that was due is complete, and fails at the lexeme for which
there is no next stage.  So the parser accepts what is read to a final stage, and
since every stage can be gone on with, a list is viable exactly as long as there is
a stage (`viable_iff_run`).
-/
import Reckon.Proofs.Expr.Recognition
import Reckon.Proofs.Expr.Stage

namespace Reckon
set_option autoImplicit false

namespace SourceFault

/-- The fault shows the lexeme at an offset. -/
inductive StopsAt : SourceFault → Nat → Prop where
  | unexpected (found : String) (position : Nat) :
      StopsAt (.unexpectedLexeme found position) position
  | trailing (found : String) (position : Nat) :
      StopsAt (.trailingLexeme found position) position
  | tooDeep (position : Nat) : StopsAt (.nestingTooDeep position) position

/-- The fault says that the text ends too early. -/
inductive Unfinished : SourceFault → Prop where
  | ended : Unfinished .endOfText
  | unclosed (position : Nat) : Unfinished (.unclosedGroup position)

end SourceFault

namespace Expr

/-- The lexemes are an expression. -/
def Accepted (lexemes : List Placed) : Prop := ∃ tree, ofLexemes lexemes = .ok tree

/-- The lexemes are the front of an expression. -/
def Viable (lexemes : List Placed) : Prop := ∃ more, Accepted (lexemes ++ more)

/-! ## Parsers agree with stages -/

/-- What a parser leaves, or its fault. -/
def leftover {α : Type} {start : List Placed} (outcome : Except SourceFault (α × Shorter start)) :
    Except SourceFault (List Placed) :=
  outcome.map fun read => read.2.val

/-- No operator of a level below `height` comes first. -/
def Looser (height : Nat) (rest : List Placed) : Prop :=
  ∀ placed ∈ rest.head?, ∀ op, placed.lexeme.binary? = some op → height ≤ op.level

theorem looser_zero (rest : List Placed) : Looser 0 rest := fun _ _ _ _ => Nat.zero_le _

/-- An outcome agrees with the stages from `start` on.  What was read ends behind an operand, and
no operator of a level below `height` follows; a fault shows the first lexeme for which there is
no stage, or the lexemes end at a stage that is not final. -/
inductive Agrees (height : Nat) (start : Stage) (nesting : List Nesting) (input : List Placed) :
    Except SourceFault (List Placed) → Prop where
  | read {before rest : List Placed} {last : Stage} (whole : input = before ++ rest)
      (ran : start.run before = some last) (done : last.Behind nesting rest)
      (looser : Looser height rest) :
      Agrees height start nesting input (.ok rest)
  | stuck {before after : List Placed} {placed : Placed} {last : Stage} {fault : SourceFault}
      (whole : input = before ++ placed :: after) (ran : start.run before = some last)
      (dead : last.step placed.lexeme = none) (shown : fault.StopsAt placed.position) :
      Agrees height start nesting input (.error fault)
  | ended {last : Stage} {fault : SourceFault} (ran : start.run input = some last)
      (unfinished : ¬last.Final) (early : fault.Unfinished) :
      Agrees height start nesting input (.error fault)

namespace Agrees
variable {height : Nat} {start middle : Stage} {nesting : List Nesting} {input : List Placed}

/-- What was read before comes in front. -/
theorem after {before : List Placed} {outcome : Except SourceFault (List Placed)}
    (ran : start.run before = some middle) (agrees : Agrees height middle nesting input outcome) :
    Agrees height start nesting (before ++ input) outcome := by
  have onward (lexemes : List Placed) : start.run (before ++ lexemes) = middle.run lexemes := by
    rw [Stage.run_append, ran]
    rfl
  cases agrees with
  | @read before' rest last whole ran' done looser =>
    have whole' : before ++ input = (before ++ before') ++ rest := by
      rw [whole, List.append_assoc]
    exact .read whole' ((onward before').trans ran') done looser
  | @stuck before' rest placed last fault whole ran' dead shown =>
    have whole' : before ++ input = (before ++ before') ++ placed :: rest := by
      rw [whole, List.append_assoc]
    exact .stuck whole' ((onward before').trans ran') dead shown
  | ended ran' unfinished early => exact .ended ((onward input).trans ran') unfinished early

/-- One lexeme comes in front. -/
theorem cons {placed : Placed} {outcome : Except SourceFault (List Placed)}
    (stepped : start.step placed.lexeme = some middle)
    (agrees : Agrees height middle nesting input outcome) :
    Agrees height start nesting (placed :: input) outcome := by
  have ran : start.run [placed] = some middle := by
    rw [Stage.run_cons, stepped]
    rfl
  exact agrees.after ran

/-- What follows goes on from the stage behind what was read. -/
theorem andThen {height' : Nat} {nesting' : List Nesting} {rest : List Placed}
    {outcome : Except SourceFault (List Placed)}
    (agrees : Agrees height start nesting input (.ok rest))
    (next : ∀ last : Stage, last.Behind nesting rest → Looser height rest →
      Agrees height' last nesting' rest outcome) :
    Agrees height' start nesting' input outcome := by
  cases agrees with
  | read whole ran done looser =>
    rw [whole]
    exact (next _ done looser).after ran

/-- Nothing more is read. -/
theorem finished {rest : List Placed} (done : start.Behind nesting rest)
    (looser : Looser height rest) : Agrees height start nesting rest (.ok rest) :=
  .read (List.nil_append _).symm rfl done looser

/-- The operand is complete. -/
theorem complete {rest : List Placed} :
    Agrees 0 (.complete nesting) nesting rest (.ok rest) :=
  .finished ⟨0, .inl rfl⟩ (looser_zero rest)

/-- An argument list that is not closed at once begins with an operand. -/
theorem opened {inside : List Nesting} {outcome : Except SourceFault (List Placed)}
    (stays : ∀ placed ∈ input.head?, placed.lexeme ≠ .symbol .rightParen)
    (agrees : Agrees height (.due inside) nesting input outcome) :
    Agrees height (.opened inside) nesting input outcome := by
  cases agrees with
  | @read before rest last whole ran done looser =>
    cases before with
    | nil =>
      cases ran
      exact absurd done Stage.not_behind_due
    | cons first before =>
      have same := Stage.run_opened inside before (stays first (by simp [whole]))
      exact .read whole (same.trans ran) done looser
  | @stuck before rest placed last fault whole ran dead shown =>
    cases before with
    | nil =>
      cases ran
      have same := Stage.step_opened inside (stays placed (by simp [whole]))
      exact .stuck whole rfl (same.trans dead) shown
    | cons first before =>
      have same := Stage.run_opened inside before (stays first (by simp [whole]))
      exact .stuck whole (same.trans ran) dead shown
  | ended ran unfinished early =>
    cases input with
    | nil => exact .ended rfl (fun final => final) early
    | cons first input =>
      have same := Stage.run_opened inside input (stays first rfl)
      exact .ended (same.trans ran) unfinished early

/-- A fault does not depend on what would have been read. -/
theorem fault {height' : Nat} {nesting' : List Nesting} {fault : SourceFault}
    (agrees : Agrees height start nesting input (.error fault)) :
    Agrees height' start nesting' input (.error fault) := by
  cases agrees with
  | stuck whole ran dead shown => exact .stuck whole ran dead shown
  | ended ran unfinished early => exact .ended ran unfinished early

/-- The first lexeme cannot stand. -/
theorem stuck_first {placed : Placed} {fault : SourceFault}
    (dead : start.step placed.lexeme = none) (shown : fault.StopsAt placed.position) :
    Agrees height start nesting (placed :: input) (.error fault) :=
  .stuck (List.nil_append _).symm rfl dead shown

end Agrees

/-- The parser agrees with the stages wherever its phrase is due with `nesting` open. -/
def Tracked (height : Nat) (nesting : List Nesting) (parser : Parser Expr) : Prop :=
  ∀ input, Agrees height (.due nesting) nesting input (leftover (parser input))

section Chain
variable {height : Nat} {nesting : List Nesting} {operand : Parser Expr}

theorem Tracked.read (tracked : Tracked height nesting operand) {input : List Placed}
    {tree : Expr} {rest : Shorter input} (took : operand input = .ok (tree, rest)) :
    Agrees height (.due nesting) nesting input (.ok rest.val) := by
  have agrees := tracked input
  rwa [took] at agrees

theorem Tracked.failed (tracked : Tracked height nesting operand) {input : List Placed}
    {fault : SourceFault} (stopped : operand input = .error fault) :
    Agrees height (.due nesting) nesting input (.error fault) := by
  have agrees := tracked input
  rwa [stopped] at agrees

theorem agrees_chainFrom (tracked : Tracked height nesting operand)
    (unsigned : nesting.head? ≠ some .sign) {start : List Placed} {input : Shorter start}
    (tree : Expr) {stage : Stage} (done : stage.Behind nesting input.val)
    (looser : Looser height input.val) :
    Agrees (height + 1) stage nesting input.val
      (leftover (chainFrom (fun op => op.level == height) operand tree input)) := by
  fun_induction chainFrom (fun op => op.level == height) operand tree input generalizing stage with
  | case1 tree shorter => exact .finished done (by simp [Looser])
  | case2 tree placed rest shorter stopped =>
    refine .finished done ?_
    rintro _ ⟨⟩ op written
    have other : op.level ≠ height := by
      simpa [written, Option.filter] using stopped
    have atLeast := looser placed rfl op written
    omega
  | case3 tree placed rest shorter op accepted fault stopped =>
    obtain ⟨written, -⟩ := Option.filter_eq_some_iff.mp accepted
    exact (Agrees.cons (done.step_binary unsigned written) (tracked.failed stopped)).fault
  | case4 tree placed rest shorter op accepted right rest' shorter' took ih =>
    obtain ⟨written, -⟩ := Option.filter_eq_some_iff.mp accepted
    refine Agrees.cons (done.step_binary unsigned written) ?_
    exact (tracked.read took).andThen fun last done' looser' => ih done' looser'

theorem tracked_chain (tracked : Tracked height nesting operand)
    (unsigned : nesting.head? ≠ some .sign) :
    Tracked (height + 1) nesting (chain (fun op => op.level == height) operand) := by
  intro input
  unfold chain
  split
  · rename_i fault stopped
    exact (tracked.failed stopped).fault
  · rename_i tree rest took
    exact (tracked.read took).andThen fun last done looser =>
      agrees_chainFrom tracked unsigned tree done looser

theorem tracked_expression (tracked : Tracked 0 nesting operand)
    (unsigned : nesting.head? ≠ some .sign) :
    Tracked BinaryOp.levels nesting (expression operand) := by
  have ladders (height : Nat) : Tracked height nesting (ladder operand height) := by
    induction height with
    | zero => exact tracked
    | succ height ih => exact tracked_chain ih unsigned
  exact ladders _

/-- Behind a whole expression there is no operator. -/
theorem Looser.binary?_eq_none {placed : Placed} {rest : List Placed}
    (looser : Looser BinaryOp.levels (placed :: rest)) : placed.lexeme.binary? = none := by
  cases written : placed.lexeme.binary? with
  | none => rfl
  | some op => exact absurd (looser placed rfl op written) (Nat.not_le.mpr op.level_lt)

/-- Behind a whole expression in a group only the closing parenthesis can stand. -/
theorem step_behind_grouped {placed : Placed} {rest : List Placed} {last : Stage}
    (done : last.Behind (.group :: nesting) (placed :: rest))
    (looser : Looser BinaryOp.levels (placed :: rest)) :
    last.step placed.lexeme =
      if placed.lexeme = .symbol .rightParen then some (.complete nesting) else none := by
  rw [done.step, Stage.behind, looser.binary?_eq_none]
  rfl

/-- Behind an argument a comma can stand, too. -/
theorem step_behind_argument {placed : Placed} {rest : List Placed} {last : Stage}
    (done : last.Behind (.call :: nesting) (placed :: rest))
    (looser : Looser BinaryOp.levels (placed :: rest)) :
    last.step placed.lexeme =
      if placed.lexeme = .symbol .comma then some (.due (.call :: nesting))
      else if placed.lexeme = .symbol .rightParen then some (.complete nesting)
      else none := by
  rw [done.step, Stage.behind, looser.binary?_eq_none]
  rfl

end Chain

section Nested
variable {nesting : List Nesting} {start : List Placed}

theorem agrees_skipArguments {argument : Parser Expr}
    (tracked : Tracked BinaryOp.levels (.call :: nesting) argument) {input : Shorter start} :
    Agrees 0 (.due (.call :: nesting)) nesting input.val
      ((skipArguments argument input).map Subtype.val) := by
  fun_induction skipArguments argument input with
  | case1 input fault stopped => exact (tracked.failed stopped).fault
  | case2 input tree shorter took =>
    refine (tracked.read took).andThen fun last done _ => ?_
    exact .ended rfl (fun final => done.final_iff.mp final) .ended
  | case3 input tree placed rest shorter took within comma ih =>
    refine (tracked.read took).andThen fun last done looser => Agrees.cons ?_ ih
    rw [step_behind_argument done looser, if_pos comma]
  | case4 input tree placed rest shorter took within notComma closes =>
    refine (tracked.read took).andThen fun last done looser =>
      Agrees.cons ?_ .complete
    rw [step_behind_argument done looser, if_neg notComma, if_pos closes]
  | case5 input tree placed rest shorter took within notComma notClosing =>
    refine (tracked.read took).andThen fun last done looser => .stuck_first ?_ (.unexpected _ _)
    rw [step_behind_argument done looser, if_neg notComma, if_neg notClosing]

/-- The parser of the nested parts agrees with the stages one level deeper, and there is none
where nothing more can be nested. -/
structure Below (deeper : Option (Parser Expr)) (nesting : List Nesting) : Prop where
  full : deeper = none → nesting.length = maxNesting
  room : ∀ parser ∈ deeper, nesting.length < maxNesting ∧
    ∀ inner, Tracked 0 (inner :: nesting) parser

section Below
variable {deeper : Option (Parser Expr)}

theorem nest_of_none (below : Below deeper nesting) (none : deeper = none) (inner : Nesting) :
    Stage.nest inner nesting = .none :=
  if_neg (by rw [below.full none]; exact Nat.lt_irrefl _)

theorem nest_of_some (below : Below deeper nesting) {parser : Parser Expr}
    (some : parser ∈ deeper) (inner : Nesting) :
    Stage.nest inner nesting = .some (inner :: nesting) :=
  if_pos (below.room parser some).1

theorem agrees_callRest (below : Below deeper nesting) {opening : Nat} {input : Shorter start}
    {outcome : Except SourceFault (Shorter start)}
    (called : callRest deeper opening input = outcome) :
    Agrees 0 (.named nesting) nesting (⟨.symbol .leftParen, opening⟩ :: input.val)
      (outcome.map Subtype.val) := by
  subst called
  unfold callRest
  split
  · refine .stuck_first ?_ (.tooDeep _)
    simp [Stage.step, nest_of_none below rfl]
  · rename_i unary
    have opens : (Stage.named nesting).step (.symbol .leftParen) =
        some (.opened (.call :: nesting)) := by
      simp [Stage.step, nest_of_some below (Option.mem_some_self unary)]
    refine Agrees.cons opens ?_
    split
    · exact Agrees.cons rfl .complete
    · rename_i due
      refine Agrees.opened ?_ ?_
      · obtain ⟨lexemes, shorter⟩ := input
        rintro ⟨lexeme, position⟩ first closes
        obtain ⟨rest, rfl⟩ := List.head?_eq_some_iff.mp first
        cases closes
        exact due position rest shorter rfl
      · have tracked := (below.room unary rfl).2 .call
        exact agrees_skipArguments (tracked_expression tracked (by simp))

theorem agrees_groupRest (below : Below deeper nesting) (position : Nat) (input : Shorter start) :
    Agrees 0 (.due nesting) nesting (⟨.symbol .leftParen, position⟩ :: input.val)
      (leftover (groupRest deeper position input)) := by
  unfold groupRest
  split
  · refine .stuck_first ?_ (.tooDeep _)
    simp [Stage.step, Stage.operand, nest_of_none below rfl]
  · rename_i unary
    have opens : (Stage.due nesting).step (.symbol .leftParen) = some (.due (.group :: nesting)) := by
      simp [Stage.step, Stage.operand, nest_of_some below (Option.mem_some_self unary)]
    have tracked : Tracked BinaryOp.levels (.group :: nesting) (expression unary) :=
      tracked_expression ((below.room unary rfl).2 .group) (by simp)
    refine Agrees.cons opens ?_
    split
    · rename_i fault stopped
      exact (tracked.failed stopped).fault
    · rename_i inner shorter took
      refine (tracked.read took).andThen fun last done _ => ?_
      exact .ended rfl (fun final => done.final_iff.mp final) (.unclosed _)
    · rename_i inner placed rest shorter took
      refine (tracked.read took).andThen fun last done looser => ?_
      split
      · rename_i closes
        refine Agrees.cons ?_ .complete
        rw [step_behind_grouped done looser, if_pos closes]
      · rename_i stays
        refine .stuck_first ?_ (.unexpected _ _)
        rw [step_behind_grouped done looser, if_neg stays]

theorem agrees_signedRest (below : Below deeper nesting) {symbol : Symbol} {op : PrefixOp}
    (written : PrefixOp.ofSymbol? symbol = some op) (position : Nat) (input : Shorter start) :
    Agrees 0 (.due nesting) nesting (⟨.symbol symbol, position⟩ :: input.val)
      (leftover (signedRest deeper op position input)) := by
  have signs : (Stage.due nesting).step (.symbol symbol) =
      (Stage.nest .sign nesting).map .due := by
    cases symbol <;> cases written <;> rfl
  unfold signedRest
  split
  · refine .stuck_first ?_ (.tooDeep _)
    simp [signs, nest_of_none below rfl]
  · rename_i unary
    have next : (Stage.due nesting).step (.symbol symbol) = some (.due (.sign :: nesting)) := by
      simp [signs, nest_of_some below (Option.mem_some_self unary)]
    have tracked := (below.room unary rfl).2 .sign
    refine Agrees.cons next ?_
    split
    · rename_i fault stopped
      exact (tracked.failed stopped).fault
    · rename_i operand rest shorter took
      exact (tracked.read took).andThen fun last done _ =>
        .finished done.sign (looser_zero _)

theorem agrees_unaryOver (below : Below deeper nesting) : Tracked 0 nesting (unaryOver deeper) := by
  intro input
  unfold unaryOver
  split
  · exact .ended rfl (fun final => final) .ended
  · split
    · exact Agrees.cons rfl .complete
    · rename_i position rest _ text
      split
      · refine Agrees.cons rfl ?_
        split
        · rename_i fault called
          exact agrees_callRest below called
        · rename_i rest called
          exact agrees_callRest below called
      · rename_i noCall
        have done : (Stage.named nesting).Behind nesting rest := by
          refine ⟨0, .inr ⟨rfl, ?_⟩⟩
          rintro ⟨lexeme, position⟩ first rfl
          obtain ⟨inside, rfl⟩ := List.head?_eq_some_iff.mp first
          exact noCall position inside rfl
        exact Agrees.cons rfl (.finished done (looser_zero _))
    · rename_i position rest _
      exact agrees_groupRest below position ⟨rest, _⟩
    · rename_i position rest _ written noGroup
      split
      · rename_i op spelled
        exact agrees_signedRest below spelled position ⟨rest, _⟩
      · rename_i noSign
        have dead : (Stage.due nesting).step (.symbol written) = none := by
          rw [Stage.step, Stage.operand, noSign]
          exact noGroup
        exact .stuck_first dead (.unexpected _ _)
    · exact .stuck_first rfl (.unexpected _ _)

end Below

/-- Every unary parser agrees with the stages wherever as much may be nested as it allows. -/
theorem tracked_unary (room : Nat) : ∀ nesting : List Nesting,
    nesting.length + room = maxNesting → Tracked 0 nesting (unary room) := by
  induction room with
  | zero =>
    intro nesting full
    refine agrees_unaryOver ⟨fun _ => full, fun _ member => absurd member (Option.not_mem_none _)⟩
  | succ room ih =>
    intro nesting fits
    refine agrees_unaryOver ⟨fun none => (nomatch none), ?_⟩
    rintro _ ⟨⟩
    exact ⟨by omega, fun inner => ih (inner :: nesting) (by simp only [List.length_cons]; omega)⟩

end Nested

/-! ## Whole lexeme lists -/

theorem agrees_ofLexemes (lexemes : List Placed) :
    Agrees 0 (.due []) [] lexemes ((ofLexemes lexemes).map fun _ => []) := by
  have tracked : Tracked BinaryOp.levels [] (expression (unary maxNesting)) :=
    tracked_expression (tracked_unary maxNesting [] (Nat.zero_add _)) (by simp)
  unfold ofLexemes
  split
  · rename_i fault stopped
    exact (tracked.failed stopped).fault
  · rename_i tree shorter took
    exact (tracked.read took).andThen fun last done _ => .finished done (looser_zero _)
  · rename_i tree placed rest shorter took
    refine (tracked.read took).andThen fun last done looser => .stuck_first ?_ (.trailing _ _)
    rw [done.step, Stage.behind, looser.binary?_eq_none]
    rfl

/-- An expression is a list that is read to a final stage. -/
theorem accepted_iff_run (lexemes : List Placed) :
    Accepted lexemes ↔ ∃ last, (Stage.due []).run lexemes = some last ∧ last.Final := by
  have agrees := agrees_ofLexemes lexemes
  constructor
  · rintro ⟨tree, parsed⟩
    rw [parsed] at agrees
    cases agrees with
    | read whole ran done _ =>
      rw [whole, List.append_nil]
      exact ⟨_, ran, done.final_iff.mpr trivial⟩
  · rintro ⟨last, ran, final⟩
    cases parsed : ofLexemes lexemes with
    | ok tree => exact ⟨tree, parsed⟩
    | error fault =>
      rw [parsed] at agrees
      cases agrees with
      | stuck whole ran' dead _ =>
        rw [whole, Stage.run_append, ran', Option.bind_some, Stage.run_cons, dead] at ran
        cases ran
      | ended ran' unfinished _ =>
        cases ran.symm.trans ran'
        exact absurd final unfinished

/-- The front of an expression is a list that is read to any stage. -/
theorem viable_iff_run (lexemes : List Placed) :
    Viable lexemes ↔ ∃ stage, (Stage.due []).run lexemes = some stage := by
  constructor
  · rintro ⟨more, accepted⟩
    obtain ⟨last, ran, -⟩ := (accepted_iff_run _).mp accepted
    rw [Stage.run_append] at ran
    obtain ⟨stage, reached, -⟩ := Option.bind_eq_some_iff.mp ran
    exact ⟨stage, reached⟩
  · rintro ⟨stage, reached⟩
    obtain ⟨more, last, ran, final⟩ := stage.exists_run
    refine ⟨more, (accepted_iff_run _).mpr ⟨last, ?_, final⟩⟩
    rw [Stage.run_append, reached]
    exact ran

/-! ## Faults of form -/

/-- **Where a fault of form shows.**  The fault of a text that has lexemes and is no expression
shows the first lexeme with which the lexemes stop being the front of an expression, or says that
the text ends too early; then all the lexemes are the front of a longer expression. -/
theorem fault_shows_first_dead_lexeme {source : String} {lexemes : List Placed}
    {fault : SourceFault} (scanned : Lexeme.scan source = .ok lexemes)
    (rejected : parse source = .error fault) :
    match fault with
    | .unexpectedLexeme _ position | .trailingLexeme _ position | .nestingTooDeep position =>
      ∃ before placed after, lexemes = before ++ placed :: after ∧ placed.position = position ∧
        Viable before ∧ ¬Viable (before ++ [placed])
    | .endOfText | .unclosedGroup _ => ∃ more, more ≠ [] ∧ Accepted (lexemes ++ more)
    | _ => False := by
  rw [parse_eq_ofLexemes scanned] at rejected
  have agrees := agrees_ofLexemes lexemes
  rw [rejected] at agrees
  cases agrees with
  | @stuck before after placed last _ whole ran dead shown =>
    have alive : Viable before := (viable_iff_run before).mpr ⟨last, ran⟩
    have dies : ¬Viable (before ++ [placed]) := by
      rw [viable_iff_run, Stage.run_append, ran, Option.bind_some, Stage.run_cons, dead]
      exact fun ⟨_, reached⟩ => nomatch reached
    cases shown with
    | unexpected found => exact ⟨before, placed, after, whole, rfl, alive, dies⟩
    | trailing found => exact ⟨before, placed, after, whole, rfl, alive, dies⟩
    | tooDeep => exact ⟨before, placed, after, whole, rfl, alive, dies⟩
  | ended ran _ early =>
    have longer : ∃ more, more ≠ [] ∧ Accepted (lexemes ++ more) := by
      obtain ⟨more, accepted⟩ := (viable_iff_run lexemes).mpr ⟨_, ran⟩
      refine ⟨more, ?_, accepted⟩
      rintro rfl
      obtain ⟨tree, parsed⟩ := accepted
      rw [List.append_nil, rejected] at parsed
      cases parsed
    cases early with
    | ended => exact longer
    | unclosed position => exact longer

/-- Inside the group an operator or the closing parenthesis could follow, and no number. -/
theorem fault_shows_second_number :
    let lexemes : List Placed :=
      [⟨.name "f", 0⟩, ⟨.symbol .leftParen, 1⟩, ⟨.number .integer "1", 2⟩, ⟨.symbol .comma, 3⟩,
       ⟨.symbol .minus, 4⟩, ⟨.symbol .leftParen, 5⟩, ⟨.number .integer "2", 6⟩,
       ⟨.number .integer "3", 8⟩]
    Lexeme.scan "f(1,-(2 3" = .ok lexemes ∧
      parse "f(1,-(2 3" = .error (.unexpectedLexeme "'3'" 8) ∧
      ∃ before placed after, lexemes = before ++ placed :: after ∧ placed.position = 8 ∧
        Viable before ∧ ¬Viable (before ++ [placed]) := by
  intro lexemes
  have scanned : Lexeme.scan "f(1,-(2 3" = .ok lexemes := by cbv
  have rejected : parse "f(1,-(2 3" = .error (.unexpectedLexeme "'3'" 8) := by cbv
  exact ⟨scanned, rejected, fault_shows_first_dead_lexeme scanned rejected⟩

end Expr
end Reckon
