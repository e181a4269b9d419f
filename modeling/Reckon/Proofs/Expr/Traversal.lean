/- Reckon.Proofs.Expr.Traversal — the walk with a stack is the recursive one

`Traversal` is the walk with its tasks on a stack, one turn after the other, each of which takes a
task off and may put others on.  A turn is never taken with an empty stack, each leaves less work
than it found, and what is left to do always comes to the rest of the walk (`turn_cons`).  So the
walk ends within two turns for each node and comes to what `inOrder` says (`Traversal.run_start`).

What it comes to is a matter of the tree alone.  If all nodes are computed it is their tokens from
left to right (`Written`); if not, it is the fault of a node that no prefix operator is applied to,
since the operator itself would be refused first (`exists_exposed`).
-/
import Reckon.Proofs.Expr.Leftmost
import Reckon.Stack

namespace Reckon.Expr
set_option autoImplicit false

/-! ## Nodes that are computed -/

/-- The node is computed if what stands below it is: it is a group, a literal with a value, or one
of the four operations. -/
inductive Supported : Expr → Prop where
  | group (inner : Expr) (position : Nat) : Supported (.group inner position)
  | literal {form : NumberForm} {text : String} {position : Nat} {x : Float}
      (value : literalValue form text position = .ok x) : Supported (.literal form text position)
  | binary (left right : Expr) (position : Nat) {op : BinaryOp}
      (basic : op ∈ [.add, .sub, .mul, .div]) : Supported (.binary left op right position)

theorem operation?_isSome_iff (op : BinaryOp) :
    op.operation?.isSome ↔ op ∈ [.add, .sub, .mul, .div] := by
  cases op <;> decide

theorem supported_iff (node : Expr) : Supported node ↔ node.refusal? = none := by
  constructor
  · rintro (⟨inner, position⟩ | ⟨value⟩ | ⟨left, right, position, basic⟩)
    · rfl
    · rw [refusal?, value]
    · obtain ⟨operation, computed⟩ :=
        Option.isSome_iff_exists.mp ((operation?_isSome_iff _).mpr basic)
      rw [refusal?, computed]
  · intro accepted
    cases node with
    | group inner position => exact .group inner position
    | literal form text position =>
      rw [refusal?] at accepted
      split at accepted
      · rename_i value
        exact .literal value
      · cases accepted
    | binary left op right position =>
      rw [refusal?] at accepted
      split at accepted
      · rename_i computed
        exact .binary left right position
          ((operation?_isSome_iff op).mp (by rw [computed, Option.isSome_some]))
      · cases accepted
    | name | call | signed => cases accepted

theorem not_supported_iff (node : Expr) :
    ¬Supported node ↔ ∃ fault, node.refusal? = some fault := by
  rw [supported_iff, ← Ne, Option.ne_none_iff_exists']

/-- The nodes of a tree that stand under no prefix operator. -/
def exposed : Expr → List Expr
  | literal form text position => [literal form text position]
  | name text position => [name text position]
  | call callee position => [call callee position]
  | group inner position => group inner position :: inner.exposed
  | signed op operand position => [signed op operand position]
  | binary left op right position =>
      binary left op right position :: (left.exposed ++ right.exposed)

/-- Below a prefix operator there is nothing that the walk comes to. -/
theorem findSome?_exposed (tree : Expr) :
    tree.exposed.findSome? refusal? = tree.nodes.findSome? refusal? := by
  induction tree with
  | literal | name | call | signed => rfl
  | group inner position ih => rw [exposed, nodes, List.findSome?_cons, List.findSome?_cons, ih]
  | binary left op right position ihLeft ihRight =>
    rw [exposed, nodes, List.findSome?_cons, List.findSome?_cons, List.findSome?_append,
      List.findSome?_append, ihLeft, ihRight]

/-- A tree that is refused is refused for a node that stands under no prefix operator. -/
theorem exists_exposed {tree : Expr} {fault : SourceFault} (failed : tree.inOrder = .error fault) :
    ∃ node ∈ tree.exposed, node.refusal? = some fault := by
  rw [inOrder_eq_error_iff, ← findSome?_exposed] at failed
  exact List.exists_of_findSome?_eq_some failed

theorem findSome?_refusal?_eq_none_iff (nodes : List Expr) :
    nodes.findSome? refusal? = none ↔ ∀ node ∈ nodes, Supported node := by
  simp only [List.findSome?_eq_none_iff, supported_iff]

/-- A tree has tokens unless it has a node that is not computed. -/
theorem inOrder_isOk_iff (tree : Expr) :
    (∃ tokens, tree.inOrder = .ok tokens) ↔ ∀ node ∈ tree.nodes, Supported node := by
  rw [← findSome?_refusal?_eq_none_iff, findSome?_refusal?_nodes, inOrder_eq]
  cases tree.formula <;> simp [Except.map]

/-- The nodes under prefix operators need not be looked at for that. -/
theorem inOrder_isOk_iff_exposed (tree : Expr) :
    (∃ tokens, tree.inOrder = .ok tokens) ↔ ∀ node ∈ tree.exposed, Supported node := by
  rw [inOrder_isOk_iff, ← findSome?_refusal?_eq_none_iff, ← findSome?_exposed,
    findSome?_refusal?_eq_none_iff]

/-! ## The tokens of a tree -/

/-- The tokens of a tree from left to right. -/
inductive Written : Expr → List Token → Prop where
  | literal {form : NumberForm} {text : String} {position : Nat} {x : Float}
      (value : literalValue form text position = .ok x) :
      Written (.literal form text position) [.value x]
  | group {inner : Expr} {contents : List Token} (position : Nat)
      (inside : Written inner contents) :
      Written (.group inner position) (.leftParen :: (contents ++ [.rightParen]))
  | binary {left right : Expr} {op : BinaryOp} {operation : Operation} {before after : List Token}
      (position : Nat) (computed : op.operation? = some operation) (leftSide : Written left before)
      (rightSide : Written right after) :
      Written (.binary left op right position) (before ++ .operation operation :: after)

theorem Written.exists_formula {tree : Expr} {tokens : List Token} (written : Written tree tokens) :
    ∃ formula, tree.formula = .ok formula ∧ formula.inOrder = tokens := by
  induction written with
  | literal value => exact ⟨.value _, by rw [Expr.formula, value]; rfl, rfl⟩
  | group position _ ih =>
    obtain ⟨contents, inside, rfl⟩ := ih
    exact ⟨.group contents, by rw [Expr.formula, inside]; rfl, rfl⟩
  | @binary _ _ _ operation _ _ position computed _ _ ihLeft ihRight =>
    obtain ⟨before, leftSide, rfl⟩ := ihLeft
    obtain ⟨after, rightSide, rfl⟩ := ihRight
    refine ⟨.node before operation after, ?_, rfl⟩
    rw [Expr.formula, leftSide, rightSide]
    simp [computed, Except.map]

theorem written_of_formula {tree : Expr} {formula : Formula}
    (computed : tree.formula = .ok formula) : Written tree formula.inOrder := by
  induction tree generalizing formula with
  | literal form text position =>
    obtain ⟨x, value, rfl⟩ := formula_literal_eq_ok computed
    exact .literal value
  | group inner position ih =>
    obtain ⟨contents, inside, rfl⟩ := formula_group_eq_ok computed
    exact .group position (ih inside)
  | binary left op right position ihLeft ihRight =>
    obtain ⟨operation, before, after, supported, leftSide, rightSide, rfl⟩ :=
      formula_binary_eq_ok computed
    exact .binary position supported (ihLeft leftSide) (ihRight rightSide)
  | name text position => simp [Expr.formula] at computed
  | call callee position => simp [Expr.formula] at computed
  | signed op operand position _ => simp [Expr.formula] at computed

theorem inOrder_eq_ok_iff_written (tree : Expr) (tokens : List Token) :
    tree.inOrder = .ok tokens ↔ Written tree tokens := by
  rw [inOrder_eq_ok_iff]
  constructor
  · rintro ⟨formula, computed, rfl⟩
    exact written_of_formula computed
  · exact Written.exists_formula

/-! ## One task at a time -/

/-- The walk between two turns: the tokens so far, latest first, and a stack of what is left to
do. -/
structure Traversal where
  emitted : List Token
  pending : Stack Task

namespace Traversal

/-- Nothing emitted yet, and the tree to visit. -/
def start (tree : Expr) : Traversal := ⟨[], Stack.empty.push (.visit tree)⟩

/-- Takes the top task off and does it; what it breaks into is put on in reverse. -/
def turn (state : Traversal) : Except StackFault (Except SourceFault Traversal) := do
  let (task, pending) ← state.pending.pop
  match task with
  | .emit token => return .ok ⟨token :: state.emitted, pending⟩
  | .visit (.literal form text position) =>
    match literalValue form text position with
    | .error fault => return .error fault
    | .ok x => return .ok ⟨.value x :: state.emitted, pending⟩
  | .visit (.binary left op right position) =>
    match op.operation? with
    | none => return .error (refuse "operator" op.symbol position)
    | some operation =>
        let pending := pending.push (.visit right)
        let pending := pending.push (.emit (.operation operation))
        return .ok ⟨state.emitted, pending.push (.visit left)⟩
  | .visit (.group inner _) =>
      let pending := pending.push (.emit .rightParen)
      return .ok ⟨.leftParen :: state.emitted, pending.push (.visit inner)⟩
  | .visit (.signed op _ position) => return .error (refuse "unary operator" op.symbol position)
  | .visit (.name text position) =>
      return .error (.unsupported ("identifier '" ++ text ++ "'") position)
  | .visit (.call callee position) =>
      return .error (.unsupported ("call to '" ++ callee ++ "'") position)

/-- Takes turns as long as there is something on the stack; nothing comes of it if that is still
so after the last one. -/
def run : (turns : Nat) → Traversal →
    Except StackFault (Option (Except SourceFault (List Token)))
  | 0, state => return if state.pending.isEmpty then some (.ok state.emitted.reverse) else none
  | turns + 1, state =>
    if state.pending.isEmpty then return some (.ok state.emitted.reverse)
    else do
      match ← state.turn with
      | .error fault => return some (.error fault)
      | .ok next => run turns next

/-- The rest of the walk. -/
def rest (state : Traversal) : Except SourceFault (List Token) :=
  walk state.emitted state.pending.items

/-- The work on the stack. -/
def work (state : Traversal) : Nat := Task.totalWork state.pending.items

/-- What a turn can come to: the fault that the walk stops with, or less work with the same rest of
the walk. -/
inductive Turned (state : Traversal) : Except SourceFault Traversal → Prop where
  | stopped {fault : SourceFault} (stops : state.rest = .error fault) : Turned state (.error fault)
  | further {next : Traversal} (same : state.rest = next.rest) (less : next.work < state.work) :
      Turned state (.ok next)

/-- A turn with something on the stack never finds it empty. -/
theorem turn_cons (emitted : List Token) (task : Task) (tasks : List Task) :
    ∃ outcome, turn ⟨emitted, ⟨task :: tasks⟩⟩ = .ok outcome ∧
      Turned ⟨emitted, ⟨task :: tasks⟩⟩ outcome := by
  cases task with
  | emit token =>
    refine ⟨.ok ⟨token :: emitted, ⟨tasks⟩⟩, rfl, .further ?_ ?_⟩
    · simp only [rest, walk]
    · simp only [work, Task.totalWork, Task.work]
      omega
  | visit tree =>
    cases tree with
    | literal form text position =>
      cases value : literalValue form text position with
      | error fault =>
        refine ⟨.error fault, ?_, .stopped ?_⟩
        · simp [turn, Stack.pop, value, bind, Except.bind, pure, Except.pure]
        · simp only [rest, walk, value]
      | ok x =>
        refine ⟨.ok ⟨.value x :: emitted, ⟨tasks⟩⟩, ?_, .further ?_ ?_⟩
        · simp [turn, Stack.pop, value, bind, Except.bind, pure, Except.pure]
        · simp only [rest, walk, value]
        · simp only [work, Task.totalWork, Task.work, size]
          omega
    | binary left op right position =>
      cases computed : op.operation? with
      | none =>
        refine ⟨.error (refuse "operator" op.symbol position), ?_, .stopped ?_⟩
        · simp [turn, Stack.pop, computed, bind, Except.bind, pure, Except.pure]
        · simp only [rest, walk, computed]
      | some operation =>
        let operator : Task := .emit (.operation operation)
        refine ⟨.ok ⟨emitted, ⟨.visit left :: operator :: .visit right :: tasks⟩⟩, ?_,
          .further ?_ ?_⟩
        · simp [turn, operator, Stack.pop, Stack.push, computed, bind, Except.bind, pure,
            Except.pure]
        · simp only [rest, walk, operator, computed]
        · simp only [work, operator, Task.totalWork, Task.work, size]
          omega
    | group inner position =>
      refine ⟨.ok ⟨.leftParen :: emitted, ⟨.visit inner :: .emit .rightParen :: tasks⟩⟩, rfl,
        .further ?_ ?_⟩
      · simp only [rest, walk]
      · simp only [work, Task.totalWork, Task.work, size]
        omega
    | signed op operand position => exact ⟨.error _, rfl, .stopped (by simp only [rest, walk])⟩
    | name text position => exact ⟨.error _, rfl, .stopped (by simp only [rest, walk])⟩
    | call callee position => exact ⟨.error _, rfl, .stopped (by simp only [rest, walk])⟩

theorem work_cons_pos (emitted : List Token) (task : Task) (tasks : List Task) :
    0 < work ⟨emitted, ⟨task :: tasks⟩⟩ := by
  rcases task with tree | token
  · cases tree <;> simp only [work, Task.totalWork, Task.work, size] <;> omega
  · simp only [work, Task.totalWork, Task.work]
    omega

/-- With a turn for each bit of work the walk comes to its end. -/
theorem run_of_work_le {turns : Nat} {state : Traversal} (enough : state.work ≤ turns) :
    run turns state = .ok (some state.rest) := by
  induction turns generalizing state with
  | zero =>
    obtain ⟨emitted, ⟨_ | ⟨task, tasks⟩⟩⟩ := state
    · simp [run, Stack.isEmpty, rest, walk, pure, Except.pure]
    · exact absurd (Nat.le_zero.mp enough) (work_cons_pos emitted task tasks).ne'
  | succ turns ih =>
    obtain ⟨emitted, ⟨_ | ⟨task, tasks⟩⟩⟩ := state
    · simp [run, Stack.isEmpty, rest, walk, pure, Except.pure]
    · obtain ⟨outcome, turned, comes⟩ := turn_cons emitted task tasks
      -- A fault ends the run; else the turns that are left are enough for the work that is.
      cases comes with
      | stopped stops =>
        simp [run, Stack.isEmpty, turned, stops, bind, Except.bind, pure, Except.pure]
      | further same less =>
        have later := ih (Nat.le_of_lt_succ (Nat.lt_of_lt_of_le less enough))
        simp [run, Stack.isEmpty, turned, same, later, bind, Except.bind]

theorem run_start {tree : Expr} {turns : Nat} (enough : 2 * tree.size ≤ turns) :
    run turns (start tree) = .ok (some tree.inOrder) := by
  have within : (start tree).work ≤ turns := enough
  exact run_of_work_le within

end Traversal

/-- **The walk with a stack is the recursive walk.**  Whatever the tree, the walk ends, within two
turns for each node, and never takes a task off an empty stack.  It has tokens if every node is a
group, a literal with a value or one of the four operations, and they are then the tokens of the
tree from left to right; if not, it has the fault of a node that is none of these and stands under
no prefix operator, with the offset of that node. -/
theorem traversal_exact (tree : Expr) :
    (∀ turns, 2 * tree.size ≤ turns →
        Traversal.run turns (.start tree) = .ok (some tree.inOrder)) ∧
      ((∃ tokens, tree.inOrder = .ok tokens) ↔ ∀ node ∈ tree.nodes, Supported node) ∧
      (∀ tokens, tree.inOrder = .ok tokens ↔ Written tree tokens) ∧
      ∀ fault, tree.inOrder = .error fault →
        ∃ node ∈ tree.exposed, ¬Supported node ∧ node.refusal? = some fault ∧
          fault.position? = some node.position := by
  refine ⟨fun turns enough => Traversal.run_start enough, inOrder_isOk_iff tree,
    inOrder_eq_ok_iff_written tree, fun fault failed => ?_⟩
  obtain ⟨node, member, refused⟩ := exists_exposed failed
  exact ⟨node, member, (not_supported_iff node).mpr ⟨fault, refused⟩, refused,
    position?_of_refusal? refused⟩

/-- A sign is refused before the name that it stands in front of. -/
theorem traversal_exact_signed :
    let tree : Expr :=
      .binary (.group (.literal .integer "2" 1) 0) .mul (.signed .negate (.name "x" 5) 4) 3
    let fault : SourceFault := .unsupported "unary operator '-'" 4
    2 * tree.size ≤ 10 ∧ tree.inOrder = .error fault ∧
      Traversal.run 10 (.start tree) = .ok (some (.error fault)) ∧
      ∃ node ∈ tree.exposed, ¬Supported node ∧ node.refusal? = some fault ∧
        fault.position? = some node.position := by
  intro tree fault
  have two : Number.readInteger? "2" = some 2 := by cbv
  have failed : tree.inOrder = .error fault := by
    simp [tree, inOrder_eq, formula, literalValue, two, BinaryOp.operation?, Except.map]
    rfl
  have size : 2 * tree.size ≤ 10 := by decide
  obtain ⟨ends, -, -, refused⟩ := traversal_exact tree
  exact ⟨size, failed, by rw [ends 10 size, failed], refused fault failed⟩

end Reckon.Expr
