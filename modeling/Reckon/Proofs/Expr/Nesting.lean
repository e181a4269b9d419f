/- Reckon.Proofs.Expr.Nesting — how deep the parentheses of a tree are nested

The parentheses of a phrase are balanced, and none is nested deeper than its derivation has room
for (`fits_of_derives`).  Signs take up room as well; but where a tree is computed there are
none, and what its parentheses take up is all the room that its derivation needs
(`derives_of_formula`).

Where in a text a phrase stands is no matter to the grammar: the same lexemes at other offsets have
the same tree there (`Derives.relocate`).  So a phrase between parentheses, which stands further on,
is a group of what it is alone (`derives_enclosed`), and computes the same (`formula_enclose`).
-/
import Reckon.Proofs.Expr.Relocation
import Reckon.Proofs.Lexeme.Parentheses

namespace Reckon
set_option autoImplicit false

namespace Postfix

/-- The parentheses are balanced, and nested in each other at most `room` deep. -/
structure Fits (room : Nat) (tokens : List Token) : Prop where
  balanced : Balanced tokens
  depth : deepest 0 tokens ≤ room

namespace Fits
variable {room : Nat}

theorem nil : Fits room [] := ⟨.nil, Nat.zero_le _⟩

theorem mono {room' : Nat} {tokens : List Token} (fits : Fits room tokens) (le : room ≤ room') :
    Fits room' tokens := ⟨fits.balanced, Nat.le_trans fits.depth le⟩

theorem append {first second : List Token} (left : Fits room first) (right : Fits room second) :
    Fits room (first ++ second) where
  balanced := left.balanced.append right.balanced
  depth := by
    rw [left.balanced.deepest_append]
    exact Nat.max_le.mpr ⟨left.depth, right.depth⟩

theorem enclosed {inner : List Token} (inside : Fits room inner) :
    Fits (room + 1) (.leftParen :: (inner ++ [.rightParen])) where
  balanced := .group inside.balanced .nil
  depth := by
    rw [inside.balanced.deepest_enclosed]
    exact Nat.succ_le_succ inside.depth

end Fits
end Postfix

namespace Expr

open Lexeme (parentheses parentheses_append parentheses_cons parenthesis?_symbol)
open Postfix (Fits deepest)

/-! ## Room -/

theorem parenthesis?_binary {symbol : Symbol} {op : BinaryOp}
    (written : BinaryOp.ofSymbol? symbol = some op) : (Lexeme.symbol symbol).parenthesis? = none :=
  parenthesis?_symbol (by rintro rfl; cases written) (by rintro rfl; cases written)

theorem parenthesis?_prefix {symbol : Symbol} {op : PrefixOp}
    (written : PrefixOp.ofSymbol? symbol = some op) : (Lexeme.symbol symbol).parenthesis? = none :=
  parenthesis?_symbol (by rintro rfl; cases written) (by rintro rfl; cases written)

theorem parentheses_binary {before after : List Placed} {symbol : Symbol} {op : BinaryOp}
    {position : Nat} (written : BinaryOp.ofSymbol? symbol = some op) :
    parentheses (before ++ ⟨.symbol symbol, position⟩ :: after) =
      parentheses before ++ parentheses after := by
  rw [parentheses_append, parentheses_cons, parenthesis?_binary written]
  rfl

theorem parentheses_enclosed (opening closing : Nat) (lexemes : List Placed) :
    parentheses (⟨.symbol .leftParen, opening⟩ :: (lexemes ++ [⟨.symbol .rightParen, closing⟩])) =
      .leftParen :: (parentheses lexemes ++ [.rightParen]) := by
  rw [parentheses_cons, parentheses_append]
  rfl

theorem CommaSeparated.fits {room : Nat} {items : List (List Placed)} {lexemes : List Placed}
    (separated : CommaSeparated items lexemes)
    (each : ∀ item ∈ items, Fits room (parentheses item)) : Fits room (parentheses lexemes) := by
  induction separated with
  | none => exact .nil
  | last item => exact each item List.mem_cons_self
  | more item next position _ ih =>
    obtain ⟨first, others⟩ := List.forall_mem_cons.mp each
    rw [parentheses_append, parentheses_cons]
    exact first.append (ih others)

/-- A phrase is nested no deeper than there is room. -/
theorem fits_of_derives {room : Nat} {category : Category} {lexemes : List Placed} {tree : Expr}
    (derived : Derives room category lexemes tree) : Fits room (parentheses lexemes) := by
  induction derived with
  | tighter _ _ ih => exact ih
  | binary position follows member written _ _ ihLeft ihRight =>
    rw [parentheses_binary written]
    exact ihLeft.append ihRight
  | signed position written _ ih =>
    rw [parentheses_cons, parenthesis?_prefix written]
    exact ih.mono (Nat.le_succ _)
  | literal form text position => exact .nil
  | name text position => exact .nil
  | group position closing _ ih =>
    rw [parentheses_enclosed]
    exact ih.enclosed
  | call callee arguments position opening closing _ separated ih =>
    rw [parentheses_cons, parentheses_enclosed]
    refine (separated.fits fun item member => ?_).enclosed
    obtain ⟨argument, among, rfl⟩ := List.mem_map.mp member
    exact ih argument among

/-- What is computed is nested by parentheses only. -/
theorem derives_of_formula {room : Nat} {category : Category} {lexemes : List Placed} {tree : Expr}
    (derived : Derives room category lexemes tree) {result : Formula}
    (computed : tree.formula = .ok result) :
    Derives (deepest 0 (parentheses lexemes)) category lexemes tree := by
  induction derived generalizing result with
  | tighter follows _ ih => exact .tighter follows (ih computed)
  | binary position follows member written leftSide rightSide ihLeft ihRight =>
    obtain ⟨_, before, after, -, leftComputed, rightComputed, -⟩ := formula_binary_eq_ok computed
    rw [parentheses_binary written, (fits_of_derives leftSide).balanced.deepest_append]
    exact .binary position follows member written ((ihLeft leftComputed).mono (Nat.le_max_left _ _))
      ((ihRight rightComputed).mono (Nat.le_max_right _ _))
  | literal form text position => exact .literal form text position
  | group position closing inside ih =>
    obtain ⟨contents, innerComputed, -⟩ := formula_group_eq_ok computed
    rw [parentheses_enclosed, (fits_of_derives inside).balanced.deepest_enclosed]
    exact .group position closing (ih innerComputed)
  | signed position written _ _ => simp [formula] at computed
  | name text position => simp [formula] at computed
  | call callee arguments position opening closing _ _ _ => simp [formula] at computed

/-! ## Phrases elsewhere -/

theorem CommaSeparated.relocate {items : List (List Placed)} {lexemes : List Placed}
    (place : Nat → Nat) (separated : CommaSeparated items lexemes) :
    CommaSeparated (items.map (List.map (Placed.relocate place)))
      (lexemes.map (Placed.relocate place)) := by
  induction separated with
  | none => exact .none
  | last item => exact .last _
  | more item next position _ ih =>
    rw [List.map_append, List.map_cons]
    exact .more _ _ (place position) ih

theorem Derives.relocate {room : Nat} {category : Category} {lexemes : List Placed} {tree : Expr}
    (derived : Derives room category lexemes tree) (place : Nat → Nat) :
    Derives room category (lexemes.map (Placed.relocate place)) (tree.relocate place) := by
  induction derived with
  | tighter follows _ ih => exact .tighter follows ih
  | binary position follows member written _ _ ihLeft ihRight =>
    rw [List.map_append, List.map_cons]
    exact .binary (place position) follows member written ihLeft ihRight
  | signed position written _ ih => exact .signed (place position) written ih
  | literal form text position => exact .literal form text (place position)
  | name text position => exact .name text (place position)
  | group position closing _ ih =>
    rw [List.map_cons, List.map_append]
    exact .group (place position) (place closing) ih
  | call callee arguments position opening closing _ separated ih =>
    rw [List.map_cons, List.map_cons, List.map_append]
    refine .call callee (arguments.map fun argument =>
        (argument.1.map (Placed.relocate place), argument.2.relocate place))
      (place position) (place opening) (place closing) (fun argument member => ?_) ?_
    · obtain ⟨argument, among, rfl⟩ := List.mem_map.mp member
      exact ih argument among
    · have moved := separated.relocate place
      rwa [List.map_map, Function.comp_def] at moved ⊢

/-- The tree as a group that opens at an offset. -/
def enclose (position : Nat) (tree : Expr) : Expr :=
  .group (tree.relocate (· + (position + 1))) position

/-- Parentheses around a phrase make a group of it, one level deeper. -/
theorem derives_enclosed {room : Nat} {lexemes : List Placed} {tree : Expr}
    (derived : Derives room .or lexemes tree) (position length : Nat) :
    Derives (room + 1) .primary (Lexeme.enclosed position length lexemes) (tree.enclose position) :=
  .group position (position + 1 + length) (derived.relocate (· + (position + 1)))

theorem formula_enclose {tree : Expr} {result : Formula} (computed : tree.formula = .ok result)
    (position : Nat) : (tree.enclose position).formula = .ok (.group result) := by
  rw [enclose, formula, formula_relocate, computed]
  rfl

end Expr
end Reckon
