/- Reckon.Proofs.Expr.Leftmost — which of several refused nodes a fault shows

A tree may ask for several things that are not computed, and a fault shows one of
them.  It is the first in the order in which the walk looks at the nodes, each
node before what stands below it (`inOrder_eq_error_iff`).

In a tree that was read from a text the positions increase from left to right,
and an operator stands behind its left side (`InPlace`).  The two orders differ
nowhere else.  So a fault shows the leftmost refused node, unless it shows an
operator that has a refused node on its left (`fault_shows_leftmost_iff`).
-/
import Reckon.Proofs.Expr.Formula
import Reckon.Proofs.Expr.Recognition
import Reckon.Proofs.Lexeme.Placement

namespace Reckon.Expr
set_option autoImplicit false

/-! ## Nodes -/

/-- The fault of a node's own construct, whatever stands below it. -/
def refusal? : Expr → Option SourceFault
  | literal form text position =>
    match literalValue form text position with
    | .ok _ => none
    | .error fault => some fault
  | name text position => some (.unsupported ("identifier '" ++ text ++ "'") position)
  | call callee position => some (.unsupported ("call to '" ++ callee ++ "'") position)
  | group _ _ => none
  | signed op _ position => some (refuse "unary operator" op.symbol position)
  | binary _ op _ position =>
    match op.operation? with
    | some _ => none
    | none => some (refuse "operator" op.symbol position)

/-- The node is not computed, whatever stands below it. -/
def Refused (node : Expr) : Prop := node.refusal?.isSome

/-- The nodes of a tree, each before those below it. -/
def nodes : Expr → List Expr
  | literal form text position => [literal form text position]
  | name text position => [name text position]
  | call callee position => [call callee position]
  | group inner position => group inner position :: inner.nodes
  | signed op operand position => signed op operand position :: operand.nodes
  | binary left op right position => binary left op right position :: (left.nodes ++ right.nodes)

/-- The nodes of a tree from left to right, an operator between its sides. -/
def fromLeft : Expr → List Expr
  | literal form text position => [literal form text position]
  | name text position => [name text position]
  | call callee position => [call callee position]
  | group inner position => group inner position :: inner.fromLeft
  | signed op operand position => signed op operand position :: operand.fromLeft
  | binary left op right position =>
      left.fromLeft ++ binary left op right position :: right.fromLeft

/-- The nodes on the left of an operator; none where the node is no operator. -/
def leftNodes : Expr → List Expr
  | binary left _ _ _ => left.nodes
  | _ => []

/-- A literal without a value has no finite one, or is no decimal. -/
theorem literalValue_eq_error {form : NumberForm} {text : String} {position : Nat}
    {fault : SourceFault} (failed : literalValue form text position = .error fault) :
    fault = .literalOutOfRange text position ∨ fault = .notDecimal text position := by
  unfold literalValue at failed
  split at failed
  · split at failed
    · cases failed
    · cases failed
      exact .inl rfl
  · split at failed
    · cases failed
    · cases failed
      exact .inl rfl
  · cases failed
    exact .inr rfl

/-- A node's fault shows at the node, and is one of meaning. -/
theorem shows_of_refusal? {node : Expr} {fault : SourceFault}
    (refused : node.refusal? = some fault) :
    fault.position? = some node.position ∧ fault.kind = .unknownLiteral := by
  cases node with
  | literal form text position =>
    rw [refusal?] at refused
    split at refused
    · cases refused
    · rename_i failed
      cases refused
      rcases literalValue_eq_error failed with rfl | rfl <;> exact ⟨rfl, rfl⟩
  | group inner position => cases refused
  | binary left op right position =>
    rw [refusal?] at refused
    split at refused
    · cases refused
    · cases refused
      exact ⟨rfl, rfl⟩
  | name text position => cases refused; exact ⟨rfl, rfl⟩
  | call callee position => cases refused; exact ⟨rfl, rfl⟩
  | signed op operand position => cases refused; exact ⟨rfl, rfl⟩

theorem position?_of_refusal? {node : Expr} {fault : SourceFault}
    (refused : node.refusal? = some fault) : fault.position? = some node.position :=
  (shows_of_refusal? refused).1

theorem fromLeft_perm_nodes (tree : Expr) : tree.fromLeft.Perm tree.nodes := by
  induction tree with
  | literal form text position => exact .refl _
  | name text position => exact .refl _
  | call callee position => exact .refl _
  | group inner position ih => exact ih.cons _
  | signed op operand position ih => exact ih.cons _
  | binary left op right position ihLeft ihRight =>
    exact List.perm_middle.trans ((ihLeft.append ihRight).cons _)

/-! ## The walk -/

/-- The first refused node has the fault of the tree. -/
theorem findSome?_refusal?_nodes (tree : Expr) :
    tree.nodes.findSome? refusal? =
      match tree.formula with
      | .ok _ => none
      | .error fault => some fault := by
  induction tree with
  | literal form text position =>
    rw [nodes, List.findSome?_singleton, refusal?, formula]
    cases literalValue form text position <;> rfl
  | name text position => rfl
  | call callee position => rfl
  | signed op operand position _ => rfl
  | group inner position ih =>
    rw [nodes, List.findSome?_cons, refusal?, ih, formula]
    cases inner.formula <;> rfl
  | binary left op right position ihLeft ihRight =>
    rw [nodes, List.findSome?_cons, List.findSome?_append, ihLeft, ihRight, refusal?, formula]
    cases op.operation? with
    | none => rfl
    | some operation =>
      cases left.formula with
      | error fault => rfl
      | ok before => cases right.formula <;> rfl

/-- The walk fails with the fault of the first refused node. -/
theorem inOrder_eq_error_iff (tree : Expr) (fault : SourceFault) :
    tree.inOrder = .error fault ↔ tree.nodes.findSome? refusal? = some fault := by
  rw [inOrder_eq, findSome?_refusal?_nodes]
  cases tree.formula <;> simp [Except.map]

/-- What the walk refuses is not computed; it is no fault of form. -/
theorem kind_of_inOrder {tree : Expr} {fault : SourceFault} (failed : tree.inOrder = .error fault) :
    fault.kind = .unknownLiteral := by
  obtain ⟨node, -, refused⟩ :=
    List.exists_of_findSome?_eq_some ((inOrder_eq_error_iff tree fault).mp failed)
  exact (shows_of_refusal? refused).2

/-! ## Order -/

/-- The positions of the nodes increase from left to right. -/
def InPlace (tree : Expr) : Prop :=
  tree.fromLeft.Pairwise fun before after => before.position < after.position

/-- The nodes of a tree stand where lexemes stand that it was derived from, in their order. -/
theorem map_position_sublist {room : Nat} {category : Category} {lexemes : List Placed}
    {tree : Expr} (derived : Derives room category lexemes tree) :
    (tree.fromLeft.map position).Sublist (lexemes.map Placed.position) := by
  induction derived with
  | tighter _ _ ih => exact ih
  | binary position _ _ _ _ _ ihLeft ihRight =>
    simp only [fromLeft, List.map_append, List.map_cons]
    exact ihLeft.append (ihRight.cons_cons position)
  | signed position _ _ ih => exact ih.cons_cons position
  | literal form text position => exact .refl _
  | name text position => exact .refl _
  | group position closing _ ih =>
    simp only [fromLeft, List.map_append, List.map_cons]
    exact (ih.trans (List.sublist_append_left _ _)).cons_cons position
  | call callee arguments position opening closing _ _ _ =>
    exact (List.nil_sublist _).cons_cons position

theorem inPlace_of_parse {source : String} {tree : Expr} (parsed : parse source = .ok tree) :
    tree.InPlace := by
  obtain ⟨lexemes, scanned, derived⟩ := derives_of_parse parsed
  have increasing : (lexemes.map Placed.position).Pairwise (· < ·) :=
    List.pairwise_map.mpr (Lexeme.lieWithin_of_scan scanned).increasing
  exact List.pairwise_map.mp (increasing.sublist (map_position_sublist derived))

/-- The nodes below a node of a tree are nodes of the tree. -/
theorem nodes_sublist {node tree : Expr} (member : node ∈ tree.nodes) :
    node.nodes.Sublist tree.nodes := by
  induction tree with
  | literal form text position => rw [List.mem_singleton.mp member]
  | name text position => rw [List.mem_singleton.mp member]
  | call callee position => rw [List.mem_singleton.mp member]
  | group inner position ih =>
    rcases List.mem_cons.mp member with rfl | below
    · exact .refl _
    · exact (ih below).cons _
  | signed op operand position ih =>
    rcases List.mem_cons.mp member with rfl | below
    · exact .refl _
    · exact (ih below).cons _
  | binary left op right position ihLeft ihRight =>
    rcases List.mem_cons.mp member with rfl | below
    · exact .refl _
    · rcases List.mem_append.mp below with inLeft | inRight
      · exact ((ihLeft inLeft).trans (List.sublist_append_left _ _)).cons _
      · exact ((ihRight inRight).trans (List.sublist_append_right _ _)).cons _

theorem leftNodes_subset (node : Expr) : node.leftNodes ⊆ node.nodes := by
  cases node with
  | binary left op right position =>
    exact List.subset_cons_of_subset _ (List.subset_append_left _ _)
  | _ => exact List.nil_subset _

/-- No node is below itself. -/
theorem not_mem_leftNodes (node : Expr) : node ∉ node.leftNodes := by
  intro member
  cases node with
  | binary left op right position =>
    have fewer := (nodes_sublist member).length_le
    simp only [nodes, List.length_cons, List.length_append] at fewer
    omega
  | _ => cases member

/-- Of two nodes the one that is looked at first stands on the left, unless it is an operator
with the other on its left. -/
theorem pairwise_nodes {tree : Expr} (inPlace : tree.InPlace) :
    tree.nodes.Pairwise fun node later =>
      later.position < node.position ↔ later ∈ node.leftNodes := by
  induction tree with
  | literal form text position => exact List.pairwise_singleton _ _
  | name text position => exact List.pairwise_singleton _ _
  | call callee position => exact List.pairwise_singleton _ _
  | group inner position ih =>
    obtain ⟨first, inside⟩ := List.pairwise_cons.mp inPlace
    refine List.pairwise_cons.mpr ⟨fun later below => ?_, ih inside⟩
    have behind := first later ((fromLeft_perm_nodes inner).mem_iff.mpr below)
    simp only [leftNodes, List.not_mem_nil, iff_false]
    omega
  | signed op operand position ih =>
    obtain ⟨first, inside⟩ := List.pairwise_cons.mp inPlace
    refine List.pairwise_cons.mpr ⟨fun later below => ?_, ih inside⟩
    have behind := first later ((fromLeft_perm_nodes operand).mem_iff.mpr below)
    simp only [leftNodes, List.not_mem_nil, iff_false]
    omega
  | binary left op right position ihLeft ihRight =>
    obtain ⟨leftPlace, others, across⟩ := List.pairwise_append.mp inPlace
    obtain ⟨first, rightPlace⟩ := List.pairwise_cons.mp others
    have before (node : Expr) (below : node ∈ left.nodes) : node.position < position :=
      across node ((fromLeft_perm_nodes left).mem_iff.mpr below) _ List.mem_cons_self
    have behind (node : Expr) (below : node ∈ right.nodes) : position < node.position :=
      first node ((fromLeft_perm_nodes right).mem_iff.mpr below)
    -- No node is on both sides, since none is both before and behind the operator.
    have apart (node : Expr) (below : node ∈ right.nodes) : node ∉ left.nodes := fun both =>
      Nat.lt_asymm (before node both) (behind node below)
    refine List.pairwise_cons.mpr ⟨fun later below => ?_, List.pairwise_append.mpr
      ⟨ihLeft leftPlace, ihRight rightPlace, fun node inLeft later inRight => ?_⟩⟩
    · rcases List.mem_append.mp below with inLeft | inRight
      · exact iff_of_true (before later inLeft) inLeft
      · exact iff_of_false (Nat.lt_asymm (behind later inRight)) (apart later inRight)
    · refine iff_of_false ?_ fun onLeft => ?_
      · exact Nat.lt_asymm (Nat.lt_trans (before node inLeft) (behind later inRight))
      · exact apart later inRight ((nodes_sublist inLeft).subset (leftNodes_subset node onLeft))

/-- **Which refused node a fault shows.**  The fault of a tree that was read from a text is
that of the first refused node the walk comes to, and shows at its position.  The refused
nodes further left are those on the left of that node, if it is an operator.  So the fault
shows the leftmost refused node if and only if it shows no operator with a refused node on
its left. -/
theorem fault_shows_leftmost_iff {source : String} {tree : Expr} {fault : SourceFault}
    (parsed : parse source = .ok tree) (failed : tree.inOrder = .error fault) :
    ∃ (earlier : List Expr) (node : Expr) (later : List Expr),
      tree.nodes = earlier ++ node :: later ∧
      (∀ other ∈ earlier, ¬other.Refused) ∧ node.refusal? = some fault ∧
      fault.position? = some node.position ∧
      (∀ other ∈ tree.nodes, other.Refused →
        (other.position < node.position ↔ other ∈ node.leftNodes)) ∧
      ((∀ other ∈ tree.nodes, other.Refused → node.position ≤ other.position) ↔
        ∀ other ∈ node.leftNodes, ¬other.Refused) := by
  obtain ⟨earlier, node, later, whole, refused, passed⟩ :=
    List.findSome?_eq_some_iff.mp ((inOrder_eq_error_iff tree fault).mp failed)
  have computed : ∀ other ∈ earlier, ¬other.Refused := fun other member => by
    simp [Refused, passed other member]
  have order := pairwise_nodes (inPlace_of_parse parsed)
  rw [whole] at order
  have behind := (List.pairwise_cons.mp (List.pairwise_append.mp order).2.1).1
  have further : ∀ other ∈ tree.nodes, other.Refused →
      (other.position < node.position ↔ other ∈ node.leftNodes) := by
    intro other member otherRefused
    rw [whole] at member
    rcases List.mem_append.mp member with before | here
    · exact absurd otherRefused (computed other before)
    · rcases List.mem_cons.mp here with rfl | after
      · exact iff_of_false (Nat.lt_irrefl _) (not_mem_leftNodes other)
      · exact behind other after
  refine ⟨earlier, node, later, whole, computed, refused, position?_of_refusal? refused, further,
    ?_⟩
  have member : node ∈ tree.nodes := whole ▸ List.mem_append_right _ List.mem_cons_self
  constructor
  · intro leftmost other onLeft otherRefused
    have among := (nodes_sublist member).subset (leftNodes_subset node onLeft)
    have before := (further other among otherRefused).mpr onLeft
    exact absurd (leftmost other among otherRefused) (Nat.not_le.mpr before)
  · intro clean other among otherRefused
    by_contra before
    exact clean other ((further other among otherRefused).mp (Nat.not_le.mp before)) otherRefused

/-- The remainder is refused, and the name on its left is not seen. -/
theorem fault_shows_operator_behind_name :
    let tree : Expr := .binary (.literal .integer "1" 0) .add
      (.binary (.binary (.name "x" 2) .mul (.literal .integer "3" 4) 3) .mod
        (.literal .integer "2" 6) 5) 1
    let fault : SourceFault := .unsupported "operator '%'" 5
    parse "1+x*3%2" = .ok tree ∧ tree.inOrder = .error fault ∧
      ∃ (earlier : List Expr) (node : Expr) (later : List Expr),
        tree.nodes = earlier ++ node :: later ∧
        (∀ other ∈ earlier, ¬other.Refused) ∧ node.refusal? = some fault ∧
        fault.position? = some node.position ∧
        (∀ other ∈ tree.nodes, other.Refused →
          (other.position < node.position ↔ other ∈ node.leftNodes)) ∧
        ((∀ other ∈ tree.nodes, other.Refused → node.position ≤ other.position) ↔
          ∀ other ∈ node.leftNodes, ¬other.Refused) := by
  intro tree fault
  have parsed : parse "1+x*3%2" = .ok tree := by cbv
  have one : Number.readInteger? "1" = some 1 := by cbv
  have shown : refuse "operator" .percent 5 = fault := by cbv
  have failed : tree.inOrder = .error fault := by
    rw [inOrder_eq, ← shown]
    simp [tree, formula, literalValue, one, Except.map, BinaryOp.operation?, BinaryOp.symbol]
  exact ⟨parsed, failed, fault_shows_leftmost_iff parsed failed⟩

/-- A fault need not show the leftmost refused node: here it shows an operator at the offset
two, where a name at the start of the text is refused as well. -/
theorem fault_not_leftmost :
    ¬∀ (source : String) (tree : Expr) (fault : SourceFault) (shown : Nat),
      parse source = .ok tree → tree.inOrder = .error fault → fault.position? = some shown →
        ∀ node ∈ tree.nodes, node.Refused → shown ≤ node.position := by
  intro leftmost
  have parsed : parse "x % 2" =
      .ok (.binary (.name "x" 0) .mod (.literal .integer "2" 4) 2) := by cbv
  have failed : (binary (.name "x" 0) .mod (.literal .integer "2" 4) 2).inOrder =
      .error (.unsupported "operator '%'" 2) := by cbv
  have before := leftmost _ _ _ 2 parsed failed rfl (.name "x" 0) (by simp [nodes]) rfl
  exact absurd before (by decide)

end Reckon.Expr
