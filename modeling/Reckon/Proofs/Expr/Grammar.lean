/- Reckon.Proofs.Expr.Grammar — the grammar as derivations

`Derives room category lexemes tree` says that the grammar makes `tree` of the
whole of `lexemes`, with groups, signs and argument lists nested in each other
at most `room` deep.  It is stated without the parser: the categories, their
symbols and their rules are those of the grammar as it is written down, every
binary rule recursive on its left side.

The arguments of a call are derived one by one and then forgotten, and a node
stands where its lexeme stands: an operator, an opening parenthesis, a name or
a number.
-/
import Mathlib
import Reckon.Expr.Parse

namespace Reckon.Expr
set_option autoImplicit false

/-! ## Categories -/

/-- The categories of the grammar, the loosest first. -/
inductive Category where
  | or | and | comparison | additive | multiplicative | exponent | unary | primary
  deriving DecidableEq, Repr

namespace Category

/-- The symbols that join two operands in a category. -/
def symbols : Category → List Symbol
  | or => [.orOr]
  | and => [.andAnd]
  | comparison => [.equalEqual, .bangEqual, .less, .lessEqual, .greater, .greaterEqual]
  | additive => [.plus, .minus, .pipe]
  | multiplicative =>
      [.star, .slash, .percent, .shiftLeft, .shiftRight, .ampersand, .ampersandCaret]
  | exponent => [.caret]
  | unary | primary => []

/-- The next tighter category, which a category's operands are of. -/
def next? : Category → Option Category
  | or => some and
  | and => some comparison
  | comparison => some additive
  | additive => some multiplicative
  | multiplicative => some exponent
  | exponent => some unary
  | unary => some primary
  | primary => none

/-- The number of binary levels that a category spans. -/
def height : Category → Nat
  | or => 6
  | and => 5
  | comparison => 4
  | additive => 3
  | multiplicative => 2
  | exponent => 1
  | unary | primary => 0

theorem height_of_next {category next : Category} (follows : category.next? = some next) :
    category.height = next.height ∨ category.height = next.height + 1 := by
  cases category <;> cases follows <;> decide

theorem height_of_mem_symbols {category next : Category} {symbol : Symbol} {op : BinaryOp}
    (follows : category.next? = some next) (member : symbol ∈ category.symbols)
    (written : BinaryOp.ofSymbol? symbol = some op) :
    category.height = next.height + 1 ∧ op.level = next.height := by
  cases category <;> simp only [symbols, List.mem_cons, List.not_mem_nil, or_false] at member <;>
    cases follows <;>
    (first | rcases member with rfl | rfl | rfl | rfl | rfl | rfl | rfl | contradiction) <;>
    cases written <;> decide

/-- The operators whose level lies just below a category are the category's. -/
theorem mem_symbols_of_level {category next : Category} {op : BinaryOp}
    (follows : category.next? = some next) (binary : category.height = next.height + 1)
    (level : op.level = next.height) : op.symbol ∈ category.symbols := by
  cases category <;> cases follows <;> cases op <;> revert binary level <;> decide

end Category

/-! ## Derivations -/

/-- The lexemes are the items, with one comma between neighbours. -/
inductive CommaSeparated : List (List Placed) → List Placed → Prop where
  | none : CommaSeparated [] []
  | last (item : List Placed) : CommaSeparated [item] item
  | more (item next : List Placed) {items : List (List Placed)} {lexemes : List Placed}
      (position : Nat) (rest : CommaSeparated (next :: items) lexemes) :
      CommaSeparated (item :: next :: items) (item ++ ⟨.symbol .comma, position⟩ :: lexemes)

/-- The grammar makes the tree of the lexemes, nested at most `room` deep. -/
inductive Derives : (room : Nat) → Category → List Placed → Expr → Prop where
  | tighter {room : Nat} {category next : Category} {lexemes : List Placed} {tree : Expr}
      (follows : category.next? = some next) (operand : Derives room next lexemes tree) :
      Derives room category lexemes tree
  | binary {room : Nat} {category next : Category} {before after : List Placed}
      {left right : Expr} {symbol : Symbol} {op : BinaryOp} (position : Nat)
      (follows : category.next? = some next) (member : symbol ∈ category.symbols)
      (written : BinaryOp.ofSymbol? symbol = some op)
      (leftSide : Derives room category before left)
      (rightSide : Derives room next after right) :
      Derives room category (before ++ ⟨.symbol symbol, position⟩ :: after)
        (.binary left op right position)
  | signed {room : Nat} {lexemes : List Placed} {operand : Expr} {symbol : Symbol}
      {op : PrefixOp} (position : Nat) (written : PrefixOp.ofSymbol? symbol = some op)
      (behind : Derives room .unary lexemes operand) :
      Derives (room + 1) .unary (⟨.symbol symbol, position⟩ :: lexemes)
        (.signed op operand position)
  | literal {room : Nat} (form : NumberForm) (text : String) (position : Nat) :
      Derives room .primary [⟨.number form text, position⟩] (.literal form text position)
  | name {room : Nat} (text : String) (position : Nat) :
      Derives room .primary [⟨.name text, position⟩] (.name text position)
  | group {room : Nat} {lexemes : List Placed} {inner : Expr} (position closing : Nat)
      (inside : Derives room .or lexemes inner) :
      Derives (room + 1) .primary
        (⟨.symbol .leftParen, position⟩ :: (lexemes ++ [⟨.symbol .rightParen, closing⟩]))
        (.group inner position)
  | call {room : Nat} {lexemes : List Placed} (callee : String)
      (arguments : List (List Placed × Expr)) (position opening closing : Nat)
      (each : ∀ argument ∈ arguments, Derives room .or argument.1 argument.2)
      (separated : CommaSeparated (arguments.map Prod.fst) lexemes) :
      Derives (room + 1) .primary
        (⟨.name callee, position⟩ :: ⟨.symbol .leftParen, opening⟩ ::
          (lexemes ++ [⟨.symbol .rightParen, closing⟩]))
        (.call callee position)

namespace Derives

/-- More room allows the same derivation. -/
theorem mono {room room' : Nat} {category : Category} {lexemes : List Placed} {tree : Expr}
    (derived : Derives room category lexemes tree) (le : room ≤ room') :
    Derives room' category lexemes tree := by
  induction derived generalizing room' with
  | tighter follows _ ih => exact .tighter follows (ih le)
  | binary position follows member written _ _ left right =>
      exact .binary position follows member written (left le) (right le)
  | literal form text position => exact .literal form text position
  | name text position => exact .name text position
  | signed position written _ ih =>
      obtain ⟨deeper, rfl⟩ := Nat.exists_eq_succ_of_ne_zero (by omega : room' ≠ 0)
      exact .signed position written (ih (by omega))
  | group position closing _ ih =>
      obtain ⟨deeper, rfl⟩ := Nat.exists_eq_succ_of_ne_zero (by omega : room' ≠ 0)
      exact .group position closing (ih (by omega))
  | call callee arguments position opening closing _ separated ih =>
      obtain ⟨deeper, rfl⟩ := Nat.exists_eq_succ_of_ne_zero (by omega : room' ≠ 0)
      exact .call callee arguments position opening closing
        (fun argument member => ih argument member (by omega)) separated

/-- A primary is a phrase of every category. -/
theorem of_primary {room : Nat} {lexemes : List Placed} {tree : Expr}
    (derived : Derives room .primary lexemes tree) (category : Category) :
    Derives room category lexemes tree := by
  have unary : Derives room .unary lexemes tree := .tighter rfl derived
  have exponent : Derives room .exponent lexemes tree := .tighter rfl unary
  have multiplicative : Derives room .multiplicative lexemes tree := .tighter rfl exponent
  have additive : Derives room .additive lexemes tree := .tighter rfl multiplicative
  have comparison : Derives room .comparison lexemes tree := .tighter rfl additive
  have and : Derives room .and lexemes tree := .tighter rfl comparison
  have or : Derives room .or lexemes tree := .tighter rfl and
  cases category <;> assumption

/-- A phrase of any category is an expression. -/
theorem loosest {room : Nat} {category : Category} {lexemes : List Placed} {tree : Expr}
    (derived : Derives room category lexemes tree) : Derives room .or lexemes tree := by
  cases category with
  | or => exact derived
  | and => exact .tighter rfl derived
  | comparison => exact .tighter rfl (.tighter rfl derived)
  | additive => exact .tighter rfl (.tighter rfl (.tighter rfl derived))
  | multiplicative => exact .tighter rfl (.tighter rfl (.tighter rfl (.tighter rfl derived)))
  | exponent =>
    exact .tighter rfl (.tighter rfl (.tighter rfl (.tighter rfl (.tighter rfl derived))))
  | unary =>
    exact .tighter rfl
      (.tighter rfl (.tighter rfl (.tighter rfl (.tighter rfl (.tighter rfl derived)))))
  | primary => exact derived.of_primary .or

end Derives
end Reckon.Expr
