/- Reckon.Proofs.Program.Alternation — which texts have tokens, without a tree

A text is read into a tree and the tree is walked again for its tokens.  The
same tokens come from the lexemes one by one, with no tree between, and a scan
that remembers one number tells which token lists are good: operands and
operations take turns, a parenthesis opens where an operand is due and closes
behind a complete one, and at most 128 are open at once
(`readingOrder_iff_accepts`).

From a tree to the scan the proof follows the derivation.  From the scan to a
tree it keeps a derivation of every part that is already complete: `Read` says
what has been read at each point of the scan, and `Read.step` that one more
lexeme keeps it.  A product behind a sum belongs to the last summand only, which
is the one place where a derivation that was found before is opened again
(`Computed.append`).
-/
import Reckon.Proofs.Program.Compile

namespace Reckon
set_option autoImplicit false

/-! ## One token for each lexeme -/

namespace Lexeme

/-- The token that a lexeme stands for, if it stands for one. -/
def token? : Lexeme → Option Token
  | .symbol .plus => some (.operation .add)
  | .symbol .minus => some (.operation .sub)
  | .symbol .star => some (.operation .mul)
  | .symbol .slash => some (.operation .div)
  | .symbol .leftParen => some .leftParen
  | .symbol .rightParen => some .rightParen
  | .number .integer text => (Number.readInteger? text).map fun n => .value (Number.ofInteger n)
  | .number .real text => (Number.read? text).map .value
  | _ => none

/-- The tokens of a lexeme list, if every lexeme stands for one. -/
def translate (lexemes : List Placed) : Option (List Token) :=
  lexemes.mapM fun placed => placed.lexeme.token?

theorem translate_append {before after : List Placed} {first second : List Token}
    (left : translate before = some first) (right : translate after = some second) :
    translate (before ++ after) = some (first ++ second) := by
  unfold translate at *
  simp [List.mapM_append, left, right]

theorem translate_cons {placed : Placed} {rest : List Placed} {token : Token}
    {tokens : List Token} (one : placed.lexeme.token? = some token)
    (others : translate rest = some tokens) :
    translate (placed :: rest) = some (token :: tokens) := by
  unfold translate at *
  simp [List.mapM_cons, one, others]

theorem translate_cons_eq_some {placed : Placed} {rest : List Placed} {tokens : List Token}
    (translated : translate (placed :: rest) = some tokens) :
    ∃ token others, placed.lexeme.token? = some token ∧ translate rest = some others ∧
      tokens = token :: others := by
  unfold translate at *
  rw [List.mapM_cons] at translated
  cases one : placed.lexeme.token? with
  | none => simp [one] at translated
  | some token =>
    cases others : rest.mapM fun placed => placed.lexeme.token? with
    | none => simp [one, others] at translated
    | some tokens => exact ⟨token, tokens, rfl, rfl, by simpa [one, others] using translated.symm⟩

theorem token?_of_translate {lexemes : List Placed} {tokens : List Token}
    (translated : translate lexemes = some tokens) :
    ∀ placed ∈ lexemes, ∃ token, placed.lexeme.token? = some token := by
  induction lexemes generalizing tokens with
  | nil => exact List.forall_mem_nil _
  | cons first rest ih =>
    obtain ⟨token, others, one, remaining, -⟩ := translate_cons_eq_some translated
    exact List.forall_mem_cons.mpr ⟨⟨token, one⟩, ih remaining⟩

/-- A literal has a value exactly where its lexeme stands for that value. -/
theorem token?_number (form : NumberForm) (text : String) (position : Nat) (x : Float) :
    (number form text).token? = some (.value x) ↔
      Expr.literalValue form text position = .ok x := by
  cases form with
  | other => simp [token?, Expr.literalValue]
  | integer => cases read : Number.readInteger? text <;> simp [token?, Expr.literalValue, read]
  | real => cases read : Number.read? text <;> simp [token?, Expr.literalValue, read]

theorem token?_symbol {symbol : Symbol} {op : BinaryOp} {operation : Operation}
    (written : BinaryOp.ofSymbol? symbol = some op)
    (supported : op.operation? = some operation) :
    (Lexeme.symbol symbol).token? = some (.operation operation) := by
  cases symbol <;> cases written <;> cases supported <;> rfl

theorem token?_cases {lexeme : Lexeme} {token : Token} (stands : lexeme.token? = some token) :
    (∃ form text x, lexeme = .number form text ∧ token = .value x) ∨
      (∃ symbol op operation, lexeme = .symbol symbol ∧ BinaryOp.ofSymbol? symbol = some op ∧
        op.operation? = some operation ∧ token = .operation operation) ∨
      (lexeme = .symbol .leftParen ∧ token = .leftParen) ∨
      (lexeme = .symbol .rightParen ∧ token = .rightParen) := by
  cases lexeme with
  | number form text =>
    cases form with
    | other => cases stands
    | integer =>
      obtain ⟨n, -, rfl⟩ := Option.map_eq_some_iff.mp stands
      exact .inl ⟨_, _, _, rfl, rfl⟩
    | real =>
      obtain ⟨x, -, rfl⟩ := Option.map_eq_some_iff.mp stands
      exact .inl ⟨_, _, _, rfl, rfl⟩
  | name text => cases stands
  | blank => cases stands
  | symbol written =>
    cases written <;> cases stands <;> simp [BinaryOp.ofSymbol?, BinaryOp.operation?]

end Lexeme

/-! ## The scan -/

/-- Where a scan stands: between `opened` parentheses, with an operand due or
complete. -/
inductive Alternation where
  | due (opened : Nat)
  | complete (opened : Nat)

namespace Alternation

/-- One token further, or nothing where the token cannot stand. -/
def advance : Alternation → Token → Option Alternation
  | due opened, .value _ => some (complete opened)
  | due opened, .leftParen => if opened < 128 then some (due (opened + 1)) else none
  | complete opened, .operation _ => some (due opened)
  | complete (opened + 1), .rightParen => some (complete opened)
  | _, _ => none

/-- Whether a scan ends behind a complete operand with every parenthesis
closed. -/
def Accepts (tokens : List Token) : Prop := tokens.foldlM advance (due 0) = some (complete 0)

end Alternation

/-! ## From a tree to the scan -/

namespace Expr
variable {room : Nat} {category : Category} {lexemes : List Placed} {tree : Expr}
  {result : Formula}

/-- The lexemes of a formula stand for its tokens in reading order. -/
theorem translate_of_derives (derived : Derives room category lexemes tree)
    (computed : tree.formula = .ok result) : Lexeme.translate lexemes = some result.inOrder := by
  induction derived generalizing result with
  | tighter _ _ ih => exact ih computed
  | binary position follows member written _ _ ihLeft ihRight =>
    obtain ⟨operation, before, after, supported, leftSide, rightSide, rfl⟩ :=
      formula_binary_eq_ok computed
    exact Lexeme.translate_append (ihLeft leftSide)
      (Lexeme.translate_cons (Lexeme.token?_symbol written supported) (ihRight rightSide))
  | literal form text position =>
    obtain ⟨x, read, rfl⟩ := formula_literal_eq_ok computed
    exact Lexeme.translate_cons ((Lexeme.token?_number form text position x).mpr read) rfl
  | group position closing _ ih =>
    obtain ⟨contents, inside, rfl⟩ := formula_group_eq_ok computed
    exact Lexeme.translate_cons rfl (Lexeme.translate_append (ih inside) rfl)
  | signed position written _ _ => simp [formula] at computed
  | name text position => simp [formula] at computed
  | call callee arguments position opening closing _ _ _ => simp [formula] at computed

/-- The scan passes over a formula as over one operand, wherever that many
parentheses more may be open. -/
theorem foldlM_advance_of_derives (derived : Derives room category lexemes tree)
    (computed : tree.formula = .ok result) {opened : Nat} (fits : opened + room ≤ 128) :
    result.inOrder.foldlM Alternation.advance (.due opened) = some (.complete opened) := by
  induction derived generalizing result opened with
  | tighter _ _ ih => exact ih computed fits
  | binary position follows member written _ _ ihLeft ihRight =>
    obtain ⟨operation, before, after, -, leftSide, rightSide, rfl⟩ :=
      formula_binary_eq_ok computed
    rw [Formula.inOrder, List.foldlM_append, ihLeft leftSide fits]
    exact ihRight rightSide fits
  | literal form text position =>
    obtain ⟨x, -, rfl⟩ := formula_literal_eq_ok computed
    rfl
  | @group room _ _ position closing _ ih =>
    obtain ⟨contents, inside, rfl⟩ := formula_group_eq_ok computed
    have opens : Alternation.advance (.due opened) .leftParen = some (.due (opened + 1)) :=
      if_pos (by omega)
    have passes := ih inside (show opened + 1 + room ≤ 128 by omega)
    rw [Formula.inOrder, List.foldlM_cons, opens]
    show (contents.inOrder ++ [Token.rightParen]).foldlM Alternation.advance (.due (opened + 1)) = _
    rw [List.foldlM_append, passes]
    rfl
  | signed position written _ _ => simp [formula] at computed
  | name text position => simp [formula] at computed
  | call callee arguments position opening closing _ _ _ => simp [formula] at computed

/-! ## From the scan to a tree -/

/-- The lexemes are derived in the category and ask for nothing but what is
computed. -/
def Computed (room : Nat) (category : Category) (lexemes : List Placed) : Prop :=
  ∃ tree formula, Derives room category lexemes tree ∧ tree.formula = .ok formula

namespace Computed
variable {room : Nat}

theorem tighter {category next : Category} {lexemes : List Placed}
    (follows : category.next? = some next) (operand : Computed room next lexemes) :
    Computed room category lexemes := by
  obtain ⟨tree, formula, derived, computed⟩ := operand
  exact ⟨tree, formula, .tighter follows derived, computed⟩

theorem binary {category next : Category} {before after : List Placed} {symbol : Symbol}
    {op : BinaryOp} {operation : Operation} (position : Nat)
    (follows : category.next? = some next) (member : symbol ∈ category.symbols)
    (written : BinaryOp.ofSymbol? symbol = some op) (supported : op.operation? = some operation)
    (left : Computed room category before) (right : Computed room next after) :
    Computed room category (before ++ ⟨.symbol symbol, position⟩ :: after) := by
  obtain ⟨leftTree, leftFormula, leftSide, leftComputed⟩ := left
  obtain ⟨rightTree, rightFormula, rightSide, rightComputed⟩ := right
  refine ⟨_, .node leftFormula operation rightFormula,
    .binary position follows member written leftSide rightSide, ?_⟩
  simp [formula, supported, leftComputed, rightComputed, Except.map]

theorem value {form : NumberForm} {text : String} {x : Float} (position : Nat)
    (stands : (Lexeme.number form text).token? = some (.value x)) :
    Computed room .unary [⟨.number form text, position⟩] := by
  have read := (Lexeme.token?_number form text position x).mp stands
  exact ⟨_, .value x, .tighter rfl (.literal form text position),
    by simp [formula, read, Except.map]⟩

theorem group {lexemes : List Placed} (position closing : Nat)
    (inside : Computed room .additive lexemes) :
    Computed (room + 1) .unary
      (⟨.symbol .leftParen, position⟩ :: (lexemes ++ [⟨.symbol .rightParen, closing⟩])) := by
  obtain ⟨tree, formula, derived, computed⟩ := inside
  have loosest : Derives room .or lexemes tree := .tighter rfl (.tighter rfl (.tighter rfl derived))
  exact ⟨_, .group formula, .tighter rfl (.group position closing loosest),
    by simp [Expr.formula, computed, Except.map]⟩

/-- One more operand behind a sum.  Multiplied, it goes to the last summand. -/
theorem append {before operand : List Placed} {symbol : Symbol} {op : BinaryOp}
    {operation : Operation} (position : Nat) (written : BinaryOp.ofSymbol? symbol = some op)
    (supported : op.operation? = some operation) (sum : Computed room .additive before)
    (last : Computed room .unary operand) :
    Computed room .additive (before ++ ⟨.symbol symbol, position⟩ :: operand) := by
  have factor : Computed room .exponent operand := last.tighter rfl
  by_cases additive : symbol ∈ Category.symbols .additive
  · exact .binary position rfl additive written supported sum (factor.tighter rfl)
  · have multiplicative : symbol ∈ Category.symbols .multiplicative := by
      revert additive
      cases symbol <;> cases written <;> cases supported <;> decide
    obtain ⟨tree, formula, derived, computed⟩ := sum
    cases derived with
    | tighter follows product =>
      cases follows
      have product : Computed room .multiplicative before := ⟨tree, formula, product, computed⟩
      exact (product.binary position rfl multiplicative written supported factor).tighter rfl
    | binary place follows member spelled leftSide rightSide =>
      -- The last summand takes the new factor, and the sum in front of it stays.
      cases follows
      obtain ⟨outer, _, _, known, leftComputed, rightComputed, rfl⟩ :=
        formula_binary_eq_ok computed
      have summands : Computed room .additive _ := ⟨_, _, leftSide, leftComputed⟩
      have product : Computed room .multiplicative _ := ⟨_, _, rightSide, rightComputed⟩
      have extended := product.binary position rfl multiplicative written supported factor
      simpa using summands.binary place rfl member spelled known extended

end Computed
end Expr

namespace Alternation
open Reckon.Expr (Computed)

/-- What stands in front of an operand that is due: nothing, or a sum and an
operation. -/
inductive Waiting (room : Nat) : List Placed → Prop where
  | none : Waiting room []
  | operation {sum : List Placed} {symbol : Symbol} {op : BinaryOp} {operation : Operation}
      (position : Nat) (written : BinaryOp.ofSymbol? symbol = some op)
      (supported : op.operation? = some operation) (complete : Computed room .additive sum) :
      Waiting room (sum ++ [⟨.symbol symbol, position⟩])

/-- The lexemes up to the innermost open parenthesis, `opened` of them being
open. -/
inductive Opening : (opened : Nat) → List Placed → Prop where
  | start : Opening 0 []
  | parenthesis {opened : Nat} {before waiting : List Placed} (position : Nat)
      (fits : opened < 128) (outer : Opening opened before)
      (due : Waiting (128 - opened) waiting) :
      Opening (opened + 1) (before ++ waiting ++ [⟨.symbol .leftParen, position⟩])

/-- What the lexemes read so far come to, at each point of the scan. -/
def Read : Alternation → List Placed → Prop
  | .due opened, lexemes =>
      ∃ before waiting, lexemes = before ++ waiting ∧ Opening opened before ∧
        Waiting (128 - opened) waiting
  | .complete opened, lexemes =>
      ∃ before sum, lexemes = before ++ sum ∧ Opening opened before ∧
        Computed (128 - opened) .additive sum

theorem Waiting.append {room : Nat} {waiting operand : List Placed} (due : Waiting room waiting)
    (last : Computed room .unary operand) : Computed room .additive (waiting ++ operand) := by
  cases due with
  | none => exact ((last.tighter rfl).tighter rfl).tighter rfl
  | operation position written supported sum =>
    simpa using sum.append position written supported last

/-- An operand completes whatever was waiting for it. -/
theorem Read.operand {opened : Nat} {lexemes operand : List Placed}
    (read : Read (.due opened) lexemes) (last : Computed (128 - opened) .unary operand) :
    Read (.complete opened) (lexemes ++ operand) := by
  obtain ⟨before, waiting, rfl, outer, due⟩ := read
  exact ⟨before, waiting ++ operand, by simp, outer, due.append last⟩

/-- One lexeme further in the scan. -/
theorem Read.step {progress next : Alternation} {before : List Placed} {placed : Placed}
    {token : Token} (read : progress.Read before) (stands : placed.lexeme.token? = some token)
    (step : progress.advance token = some next) : next.Read (before ++ [placed]) := by
  obtain ⟨lexeme, position⟩ := placed
  rcases Lexeme.token?_cases stands with ⟨form, text, x, rfl, rfl⟩ |
    ⟨symbol, op, operation, rfl, written, supported, rfl⟩ | ⟨rfl, rfl⟩ | ⟨rfl, rfl⟩
  · cases progress with
    | complete opened => cases step
    | due opened =>
      cases step
      exact read.operand (.value position stands)
  · cases progress with
    | due opened => cases step
    | complete opened =>
      cases step
      obtain ⟨outer, sum, rfl, opening, complete⟩ := read
      exact ⟨outer, sum ++ [⟨.symbol symbol, position⟩], by simp, opening,
        .operation position written supported complete⟩
  · cases progress with
    | complete opened => cases step
    | due opened =>
      obtain ⟨fits, rfl⟩ : opened < 128 ∧ Alternation.due (opened + 1) = next := by
        simpa [Alternation.advance] using step
      obtain ⟨outer, waiting, rfl, opening, due⟩ := read
      exact ⟨_, [], by simp, .parenthesis position fits opening due, .none⟩
  · cases progress with
    | due opened => cases step
    | complete opened =>
      cases opened with
      | zero => cases step
      | succ opened =>
        cases step
        obtain ⟨outer, sum, rfl, opening, complete⟩ := read
        -- The sum since the parenthesis that is closed becomes a group, which is an
        -- operand for whatever was waiting in front of that parenthesis.
        cases opening with
        | parenthesis place fits opening due =>
          have inside : Computed (128 - (opened + 1)) .additive sum := complete
          have group := inside.group place position
          rw [show 128 - (opened + 1) + 1 = 128 - opened by omega] at group
          have closed := Read.operand ⟨_, _, rfl, opening, due⟩ group
          simpa using closed

/-- The whole scan. -/
theorem Read.run {progress last : Alternation} {before rest : List Placed} {tokens : List Token}
    (read : progress.Read before) (translated : Lexeme.translate rest = some tokens)
    (run : tokens.foldlM advance progress = some last) : last.Read (before ++ rest) := by
  induction rest generalizing progress before tokens with
  | nil =>
    cases translated
    cases run
    simpa using read
  | cons placed rest ih =>
    obtain ⟨token, others, stands, remaining, rfl⟩ := Lexeme.translate_cons_eq_some translated
    rw [List.foldlM_cons] at run
    obtain ⟨next, step, run⟩ := Option.bind_eq_some_iff.mp run
    simpa using ih (read.step stands step) remaining run

/-- Lexemes whose tokens the scan accepts make a formula. -/
theorem computed_of_accepts {lexemes : List Placed} {tokens : List Token}
    (translated : Lexeme.translate lexemes = some tokens) (accepted : Accepts tokens) :
    Computed 128 .or lexemes := by
  have start : Read (.due 0) [] := ⟨[], [], rfl, .start, .none⟩
  obtain ⟨outer, sum, whole, opening, complete⟩ := start.run translated accepted
  cases opening
  obtain rfl : lexemes = sum := whole
  exact ((complete.tighter rfl).tighter rfl).tighter rfl

end Alternation

/-! ## Texts -/

/-- **Which texts have tokens.**  A text has tokens in reading order if and only
if it has lexemes, each of them stands for a token, and one scan accepts those
tokens; they are then the text's tokens, in the order of the lexemes. -/
theorem readingOrder_iff_accepts (source : String) (tokens : List Token) :
    readingOrder source = .ok tokens ↔
      ∃ lexemes, Lexeme.scan source = .ok lexemes ∧ Lexeme.translate lexemes = some tokens ∧
        Alternation.Accepts tokens := by
  rw [Program.readingOrder_eq_ok_iff]
  constructor
  · rintro ⟨tree, formula, parsed, computed, rfl⟩
    obtain ⟨lexemes, scanned, derived⟩ := Expr.derives_of_parse parsed
    exact ⟨lexemes, scanned, Expr.translate_of_derives derived computed,
      Expr.foldlM_advance_of_derives derived computed (Nat.le_refl 128)⟩
  · rintro ⟨lexemes, scanned, translated, accepted⟩
    obtain ⟨tree, formula, derived, computed⟩ := Alternation.computed_of_accepts translated accepted
    have parsed : Expr.parse source = .ok tree := by
      rw [Expr.parse_eq_ofLexemes scanned]
      exact (Expr.ofLexemes_eq_ok_iff lexemes tree).mpr derived
    -- The tokens of the formula are the translation, so they are `tokens`.
    have same := (Expr.translate_of_derives derived computed).symm.trans translated
    exact ⟨tree, formula, parsed, computed, Option.some.inj same⟩

end Reckon
