/- Reckon.Proofs.Expr.Completeness — what the grammar derives is read

A derived phrase is read as the tree it is derived with, whatever follows it,
as long as what follows does not go on with it (`readAs_of_derives`).  The
induction is on the derivation.  A binary rule is recursive on its left side,
where the parser has a loop, so more is shown of the binary levels: the loop
comes to the derived tree before it looks at what follows (`Reaches`), and one
more operator and operand take it one step further.
-/
import Reckon.Proofs.Expr.Grammar

namespace Reckon.Expr
set_option autoImplicit false

/-! ## Chains -/

/-- The parser reads `result` off the front of `input` and leaves `rest`. -/
def Reads {α : Type} (parser : Parser α) (input : List Placed) (result : α)
    (rest : List Placed) : Prop :=
  ∃ shorter, parser input = .ok (result, ⟨rest, shorter⟩)

/-- The chain of a level comes to the complete operand `tree` with `rest` left. -/
def Reaches (accepts : BinaryOp → Bool) (operand : Parser Expr) (input : List Placed)
    (tree : Expr) (rest : List Placed) : Prop :=
  ∃ shorter, chain accepts operand input = chainFrom accepts operand tree ⟨rest, shorter⟩

/-- Nothing at the front of the lexemes goes on with a phrase of this height. -/
def Stops (height : Nat) : List Placed → Prop
  | [] => True
  | placed :: _ =>
      placed.lexeme ≠ .symbol .leftParen ∧
        ∀ op, placed.lexeme.binary? = some op → height ≤ op.level

theorem Stops.mono {height height' : Nat} {rest : List Placed} (stops : Stops height rest)
    (le : height' ≤ height) : Stops height' rest := by
  cases rest with
  | nil => trivial
  | cons placed _ => exact ⟨stops.1, fun op written => Nat.le_trans le (stops.2 op written)⟩

theorem stops_of_symbol {symbol : Symbol} {position height : Nat} {rest : List Placed}
    (opens : symbol ≠ .leftParen)
    (looser : ∀ op, BinaryOp.ofSymbol? symbol = some op → height ≤ op.level) :
    Stops height (⟨.symbol symbol, position⟩ :: rest) :=
  ⟨by simpa using opens, looser⟩

theorem stops_rightParen (height position : Nat) (rest : List Placed) :
    Stops height (⟨.symbol .rightParen, position⟩ :: rest) :=
  stops_of_symbol (by decide) (by simp [BinaryOp.ofSymbol?])

theorem stops_comma (height position : Nat) (rest : List Placed) :
    Stops height (⟨.symbol .comma, position⟩ :: rest) :=
  stops_of_symbol (by decide) (by simp [BinaryOp.ofSymbol?])

section Chain
variable {accepts : BinaryOp → Bool} {operand : Parser Expr}

theorem reaches_of_reads {input rest : List Placed} {tree : Expr}
    (first : Reads operand input tree rest) : Reaches accepts operand input tree rest := by
  obtain ⟨shorter, read⟩ := first
  exact ⟨shorter, by simp [chain, read]⟩

theorem Reaches.step {input after rest : List Placed} {left right : Expr} {placed : Placed}
    {op : BinaryOp}
    (reached : Reaches accepts operand input left (placed :: after))
    (written : placed.lexeme.binary? = some op) (accepted : accepts op = true)
    (next : Reads operand after right rest) :
    Reaches accepts operand input (.binary left op right placed.position) rest := by
  obtain ⟨shorter, reached⟩ := reached
  obtain ⟨shorter', read⟩ := next
  refine ⟨by simp at shorter; omega, ?_⟩
  rw [reached, chainFrom]
  simp [written, Option.filter, accepted, read]

theorem Reaches.reads {input rest : List Placed} {tree : Expr}
    (reached : Reaches accepts operand input tree rest)
    (ends : ∀ placed ∈ rest.head?, placed.lexeme.binary?.filter accepts = none) :
    Reads (chain accepts operand) input tree rest := by
  obtain ⟨shorter, reached⟩ := reached
  refine ⟨shorter, ?_⟩
  rw [reached]
  cases rest with
  | nil => rw [chainFrom]
  | cons placed rest =>
    rw [chainFrom]
    simp [ends placed rfl]

end Chain

/-! ## Unary expressions -/

section Unary
variable {room : Nat}

theorem reads_literal (form : NumberForm) (text : String) (position : Nat) (rest : List Placed) :
    Reads (unary room) (⟨.number form text, position⟩ :: rest) (.literal form text position)
      rest := by
  cases room <;> exact ⟨Nat.lt_succ_self _, rfl⟩

theorem reads_name (text : String) (position : Nat) (rest : List Placed) (stops : Stops 0 rest) :
    Reads (unary room) (⟨.name text, position⟩ :: rest) (.name text position) rest := by
  refine ⟨Nat.lt_succ_self _, ?_⟩
  have closed : ∀ opened inside, rest = ⟨.symbol .leftParen, opened⟩ :: inside → False := by
    rintro opened inside rfl
    exact stops.1 rfl
  cases room <;> rw [unary, unaryOver] <;> exact closed

theorem reads_signed {symbol : Symbol} {op : PrefixOp} {position : Nat}
    {input rest : List Placed} {operand : Expr} (written : PrefixOp.ofSymbol? symbol = some op)
    (behind : Reads (unary room) input operand rest) :
    Reads (unary (room + 1)) (⟨.symbol symbol, position⟩ :: input) (.signed op operand position)
      rest := by
  obtain ⟨shorter, read⟩ := behind
  refine ⟨Nat.lt_succ_of_lt shorter, ?_⟩
  cases symbol <;> cases written <;>
    simp [unary, unaryOver, PrefixOp.ofSymbol?, signedRest, read]

theorem reads_group (position : Nat) {closing : Nat} {input rest : List Placed} {inner : Expr}
    (inside : Reads (expression (unary room)) input inner
      (⟨.symbol .rightParen, closing⟩ :: rest)) :
    Reads (unary (room + 1)) (⟨.symbol .leftParen, position⟩ :: input) (.group inner position)
      rest := by
  obtain ⟨shorter, read⟩ := inside
  refine ⟨by simp at shorter ⊢; omega, ?_⟩
  simp [unary, unaryOver, groupRest, read]

/-- An argument list, one argument due, is taken off `input` down to `rest`. -/
def Skips (argument : Parser Expr) (input rest : List Placed) : Prop :=
  ∀ (start : List Placed) (within : input.length < start.length), ∃ shorter,
    skipArguments argument (⟨input, within⟩ : Shorter start) = .ok ⟨rest, shorter⟩

theorem skips_last {argument : Parser Expr} {input rest : List Placed} {tree : Expr}
    {closing : Nat}
    (read : Reads argument input tree (⟨.symbol .rightParen, closing⟩ :: rest)) :
    Skips argument input rest := by
  intro start within
  obtain ⟨shorter, read⟩ := read
  refine ⟨by simp at shorter; omega, ?_⟩
  rw [skipArguments]
  simp [read]

theorem skips_more {argument : Parser Expr} {input after rest : List Placed} {tree : Expr}
    {position : Nat}
    (read : Reads argument input tree (⟨.symbol .comma, position⟩ :: after))
    (others : Skips argument after rest) : Skips argument input rest := by
  intro start within
  obtain ⟨shorter, read⟩ := read
  obtain ⟨shorter', skipped⟩ := others start (by simp at shorter; omega)
  refine ⟨shorter', ?_⟩
  rw [skipArguments]
  simp [read, skipped]

theorem skips_separated {argument : Parser Expr} {height closing : Nat} {rest : List Placed}
    {items : List (List Placed × Expr)} {lexemes : List Placed}
    (separated : CommaSeparated (items.map Prod.fst) lexemes) (some : items ≠ [])
    (each : ∀ item ∈ items, ∀ rest, Stops height rest →
      Reads argument (item.1 ++ rest) item.2 rest) :
    Skips argument (lexemes ++ ⟨.symbol .rightParen, closing⟩ :: rest) rest := by
  generalize shape : items.map Prod.fst = pieces at separated
  induction separated generalizing items with
  | none => exact absurd (List.map_eq_nil_iff.mp shape) some
  | last item =>
      obtain ⟨⟨lexemes, tree⟩, rfl, rfl⟩ := List.map_eq_singleton_iff.mp shape
      exact skips_last (each _ (List.mem_singleton_self _) _ (stops_rightParen _ _ _))
  | more item next position _ ih =>
      obtain ⟨⟨lexemes, tree⟩, others, rfl, rfl, remaining⟩ := List.map_eq_cons_iff.mp shape
      have nonempty : others ≠ [] := by rintro rfl; cases remaining
      rw [List.append_assoc, List.cons_append]
      exact skips_more (each _ List.mem_cons_self _ (stops_comma _ _ _))
        (ih nonempty (fun item member => each item (List.mem_cons_of_mem _ member)) remaining)

theorem ladder_rightParen (height closing : Nat) (rest : List Placed) :
    ladder (unary room) height (⟨.symbol .rightParen, closing⟩ :: rest) =
      .error (.unexpectedLexeme (Lexeme.symbol .rightParen).shown closing) := by
  induction height with
  | zero => cases room <;> rfl
  | succ height ih => rw [ladder, chain, ih]

theorem reads_call {callee : String} {position opening closing : Nat} {lexemes : List Placed}
    {items : List (List Placed × Expr)} (rest : List Placed)
    (separated : CommaSeparated (items.map Prod.fst) lexemes)
    (each : ∀ item ∈ items, ∀ rest, Stops BinaryOp.levels rest →
      Reads (expression (unary room)) (item.1 ++ rest) item.2 rest) :
    Reads (unary (room + 1))
      (⟨.name callee, position⟩ :: ⟨.symbol .leftParen, opening⟩ ::
        (lexemes ++ ⟨.symbol .rightParen, closing⟩ :: rest))
      (.call callee position) rest := by
  cases items with
  | nil =>
    cases separated
    exact ⟨by simp; omega, by simp [unary, unaryOver, callRest]⟩
  | cons item items =>
    let input := lexemes ++ ⟨.symbol .rightParen, closing⟩ :: rest
    let start : List Placed := ⟨.name callee, position⟩ :: ⟨.symbol .leftParen, opening⟩ :: input
    have within : input.length < start.length := by
      simp only [start, List.length_cons]
      omega
    have skips : Skips (expression (unary room)) input rest :=
      skips_separated separated (List.cons_ne_nil _ _) each
    obtain ⟨shorter, skipped⟩ := skips start within
    refine ⟨shorter, ?_⟩
    have due : ∀ closing rest shorter,
        (⟨input, within⟩ : Shorter start) = ⟨⟨.symbol .rightParen, closing⟩ :: rest, shorter⟩ →
          False := by
      intro closing rest shorter same
      rw [same, skipArguments] at skipped
      simp [expression, ladder_rightParen] at skipped
    have called : callRest (some (unary room)) opening (⟨input, within⟩ : Shorter start) =
        .ok ⟨rest, shorter⟩ := by
      rw [callRest, skipped]
      exact due
    rw [unary, unaryOver, called]

/-- On a binary level the chain stops where nothing goes on with the level. -/
theorem Reaches.reads_level {parser : Parser Expr} {height : Nat} {input rest : List Placed}
    {tree : Expr}
    (reached : Reaches (fun op => op.level == height) (ladder parser height) input tree rest)
    (stops : Stops (height + 1) rest) : Reads (ladder parser (height + 1)) input tree rest := by
  refine Reaches.reads reached fun placed first => ?_
  cases rest with
  | nil => cases first
  | cons head _ =>
    cases first
    cases written : placed.lexeme.binary? with
    | none => rfl
    | some op =>
      have looser := stops.2 op written
      simp only [Option.filter, beq_iff_eq]
      rw [if_neg (by omega)]

/-- What completeness says of a phrase: it is read as the tree, whatever follows
it, as long as that does not go on with it.  On a binary level more is true:
the chain of the level comes to the tree without looking at what follows. -/
structure ReadAs (room : Nat) (category : Category) (lexemes : List Placed) (tree : Expr) :
    Prop where
  reads : ∀ rest, Stops category.height rest →
    Reads (ladder (unary room) category.height) (lexemes ++ rest) tree rest
  reaches : ∀ height, category.height = height + 1 → ∀ rest, Stops height rest →
    Reaches (fun op => op.level == height) (ladder (unary room) height) (lexemes ++ rest) tree
      rest

theorem ReadAs.of_unary {category : Category} {lexemes : List Placed} {tree : Expr}
    (tightest : category.height = 0)
    (reads : ∀ rest, Stops 0 rest → Reads (unary room) (lexemes ++ rest) tree rest) :
    ReadAs room category lexemes tree :=
  ⟨by rw [tightest]; exact reads, fun _ high => by omega⟩

theorem ReadAs.of_reaches {category : Category} {height : Nat} {lexemes : List Placed}
    {tree : Expr} (above : category.height = height + 1)
    (reaches : ∀ rest, Stops height rest →
      Reaches (fun op => op.level == height) (ladder (unary room) height) (lexemes ++ rest) tree
        rest) :
    ReadAs room category lexemes tree := by
  refine ⟨fun rest stops => ?_, fun height' high => ?_⟩
  · rw [above] at stops ⊢
    exact (reaches rest (stops.mono (Nat.le_succ _))).reads_level stops
  · obtain rfl : height = height' := by omega
    exact reaches

/-- **Completeness.**  What the grammar derives is read as derived. -/
theorem readAs_of_derives {category : Category} {lexemes : List Placed} {tree : Expr}
    (derived : Derives room category lexemes tree) : ReadAs room category lexemes tree := by
  induction derived with
  | @tighter room category next lexemes tree follows _ ih =>
      rcases Category.height_of_next follows with same | above
      · refine ⟨?_, ?_⟩ <;> rw [same]
        · exact ih.reads
        · exact ih.reaches
      · exact .of_reaches above fun rest stops => reaches_of_reads (ih.reads rest stops)
  | @binary room category next before after left right symbol op position follows member written
      _ _ leftRead rightRead =>
      obtain ⟨above, level⟩ := Category.height_of_mem_symbols follows member written
      refine .of_reaches above fun rest stops => ?_
      have operator : Stops next.height (⟨.symbol symbol, position⟩ :: (after ++ rest)) := by
        refine stops_of_symbol (by rintro rfl; cases written) fun op' same => ?_
        rw [written] at same
        cases same
        exact Nat.le_of_eq level.symm
      rw [List.append_assoc]
      exact (leftRead.reaches next.height above _ operator).step written (by simp [level])
        (rightRead.reads rest stops)
  | literal form text position =>
      exact .of_unary rfl fun rest _ => reads_literal form text position rest
  | name text position => exact .of_unary rfl fun rest stops => reads_name text position rest stops
  | signed position written _ ih =>
      exact .of_unary rfl fun rest stops => reads_signed written (ih.reads rest stops)
  | group position closing _ ih =>
      refine .of_unary rfl fun rest _ => ?_
      simpa using reads_group position (ih.reads _ (stops_rightParen _ closing rest))
  | call callee _ position opening closing _ separated ih =>
      refine .of_unary rfl fun rest _ => ?_
      simpa using reads_call rest separated fun item member => (ih item member).reads

end Unary
end Reckon.Expr
