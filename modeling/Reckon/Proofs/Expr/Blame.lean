/- Reckon.Proofs.Expr.Blame — a fault is about a lexeme of the text

Whatever is wrong with a text that has lexemes, the fault shows one of them, at
its own position, or says that the lexemes come to an end too early
(`SourceFault.FoundIn`).  Faults of form come from the parser: each parser reads
a part off the front, so a fault in what is left is a fault in the whole
(`Traceable`).  The other faults come from the tree, whose nodes stand where the
lexemes stand that they were derived from.
-/
import Reckon.Program
import Reckon.Proofs.Expr.Formula
import Reckon.Proofs.Expr.Recognition
import Reckon.Proofs.Lexeme.Placement

namespace Reckon
set_option autoImplicit false

namespace SourceFault

/-- What a fault says of the lexemes it was found in.  A lexeme that is expected to be
something else in an argument list, or not to be there at all, has another before
it. -/
inductive FoundIn (lexemes : List Placed) : SourceFault → Prop where
  | unexpected {placed : Placed} (member : placed ∈ lexemes) :
      FoundIn lexemes (.unexpectedLexeme placed.lexeme.shown placed.position)
  | unseparated {placed : Placed} (behind : placed ∈ lexemes.tail) :
      FoundIn lexemes (.unexpectedLexeme
        ("expected ',' or ')', found " ++ placed.lexeme.shown) placed.position)
  | ended : FoundIn lexemes .endOfText
  | unclosed {position : Nat} (member : ⟨.symbol .leftParen, position⟩ ∈ lexemes) :
      FoundIn lexemes (.unclosedGroup position)
  | trailing {placed : Placed} (behind : placed ∈ lexemes.tail) :
      FoundIn lexemes (.trailingLexeme placed.lexeme.shown placed.position)
  | tooDeep {symbol : Symbol} {position : Nat} (member : ⟨.symbol symbol, position⟩ ∈ lexemes)
      (nests : symbol = .leftParen ∨ ∃ op, PrefixOp.ofSymbol? symbol = some op) :
      FoundIn lexemes (.nestingTooDeep position)
  | operator {op : BinaryOp} {position : Nat} (member : ⟨.symbol op.symbol, position⟩ ∈ lexemes)
      (refused : op.operation? = none) :
      FoundIn lexemes (Expr.refuse "operator" op.symbol position)
  | signed {op : PrefixOp} {position : Nat} (member : ⟨.symbol op.symbol, position⟩ ∈ lexemes) :
      FoundIn lexemes (Expr.refuse "unary operator" op.symbol position)
  | name {text : String} {position : Nat} (member : ⟨.name text, position⟩ ∈ lexemes) :
      FoundIn lexemes (.unsupported ("identifier '" ++ text ++ "'") position)
  | call {text : String} {position : Nat} (member : ⟨.name text, position⟩ ∈ lexemes) :
      FoundIn lexemes (.unsupported ("call to '" ++ text ++ "'") position)
  | outOfRange {form : NumberForm} {text : String} {position : Nat}
      (member : ⟨.number form text, position⟩ ∈ lexemes)
      (refused : Expr.literalValue form text position = .error (.literalOutOfRange text position)) :
      FoundIn lexemes (.literalOutOfRange text position)
  | notDecimal {text : String} {position : Nat}
      (member : ⟨.number .other text, position⟩ ∈ lexemes) :
      FoundIn lexemes (.notDecimal text position)

/-- A lexeme that has another before it in a part of a list has one in the list. -/
theorem tail_subset_of_part {part lexemes : List Placed} (within : part <:+: lexemes) :
    part.tail ⊆ lexemes.tail := by
  obtain ⟨before, after, rfl⟩ := within
  intro placed behind
  cases before with
  | cons first before =>
    exact List.mem_append_left _ (List.mem_append_right _ (List.mem_of_mem_tail behind))
  | nil =>
    cases part with
    | nil => cases behind
    | cons first part => exact List.mem_append_left _ behind

/-- A fault in a part of a lexeme list is a fault in the list. -/
theorem FoundIn.widen {part lexemes : List Placed} {fault : SourceFault}
    (found : fault.FoundIn part) (within : part <:+: lexemes) : fault.FoundIn lexemes := by
  have members : part ⊆ lexemes := within.subset
  have tails : part.tail ⊆ lexemes.tail := tail_subset_of_part within
  cases found with
  | unexpected member => exact .unexpected (members member)
  | unseparated behind => exact .unseparated (tails behind)
  | ended => exact .ended
  | unclosed member => exact .unclosed (members member)
  | trailing behind => exact .trailing (tails behind)
  | tooDeep member nests => exact .tooDeep (members member) nests
  | operator member refused => exact .operator (members member) refused
  | signed member => exact .signed (members member)
  | name member => exact .name (members member)
  | call member => exact .call (members member)
  | outOfRange member refused => exact .outOfRange (members member) refused
  | notDecimal member => exact .notDecimal (members member)

theorem FoundIn.of_suffix {rest lexemes : List Placed} {fault : SourceFault}
    (found : fault.FoundIn rest) (suffix : rest <:+ lexemes) : fault.FoundIn lexemes :=
  found.widen suffix.isInfix

end SourceFault

namespace Expr

/-! ## Parsers -/

/-- What a parser leaves stands at the end of its input, and its faults are about its
input. -/
structure Traceable (parser : Parser Expr) : Prop where
  rest : ∀ {input : List Placed} {result : Expr} {rest : Shorter input},
    parser input = .ok (result, rest) → rest.val <:+ input
  fault : ∀ {input : List Placed} {fault : SourceFault},
    parser input = .error fault → fault.FoundIn input

/-- A lexeme that is left has another before it. -/
theorem mem_tail_of_suffix {placed : Placed} {rest input : List Placed}
    (suffix : placed :: rest <:+ input) (shorter : (placed :: rest).length < input.length) :
    placed ∈ input.tail := by
  obtain ⟨before, rfl⟩ := suffix
  cases before with
  | nil => exact absurd shorter (Nat.lt_irrefl _)
  | cons first before => simp

section Chain
variable {accepts : BinaryOp → Bool} {operand : Parser Expr}

theorem chainFrom_rest (traceable : Traceable operand) {start : List Placed}
    {input rest : Shorter start} {tree result : Expr}
    (read : chainFrom accepts operand tree input = .ok (result, rest)) :
    rest.val <:+ input.val := by
  fun_induction chainFrom accepts operand tree input with
  | case1 => cases read; exact List.suffix_refl _
  | case2 => cases read; exact List.suffix_refl _
  | case3 => cases read
  | case4 tree placed behind shorter op accepted right rest' shorter' took ih =>
    have suffix : rest' <:+ behind := traceable.rest took
    exact ((ih read).trans suffix).trans (List.suffix_cons _ _)

theorem chainFrom_fault (traceable : Traceable operand) {start : List Placed}
    {input : Shorter start} {tree : Expr} {fault : SourceFault}
    (failed : chainFrom accepts operand tree input = .error fault) :
    fault.FoundIn input.val := by
  fun_induction chainFrom accepts operand tree input with
  | case1 => cases failed
  | case2 => cases failed
  | case3 tree placed behind shorter op accepted fault' stopped =>
    cases failed
    exact (traceable.fault stopped).of_suffix (List.suffix_cons _ _)
  | case4 tree placed behind shorter op accepted right rest' shorter' took ih =>
    have suffix : rest' <:+ behind := traceable.rest took
    exact (ih failed).of_suffix (suffix.trans (List.suffix_cons _ _))

theorem traceable_chain (traceable : Traceable operand) : Traceable (chain accepts operand) where
  rest read := by
    unfold chain at read
    split at read
    · cases read
    · rename_i first behind took
      exact (chainFrom_rest traceable read).trans (traceable.rest took)
  fault failed := by
    unfold chain at failed
    split at failed
    · rename_i stopped
      cases failed
      exact traceable.fault stopped
    · rename_i first behind took
      exact (chainFrom_fault traceable failed).of_suffix (traceable.rest took)

theorem traceable_expression (traceable : Traceable operand) : Traceable (expression operand) := by
  have ladders (height : Nat) : Traceable (ladder operand height) := by
    induction height with
    | zero => exact traceable
    | succ height ih => exact traceable_chain ih
  exact ladders _

end Chain

section Nested
variable {deeper : Option (Parser Expr)} {start : List Placed} {input : Shorter start}
  {fault : SourceFault}

theorem skipArguments_fault {argument : Parser Expr} (traceable : Traceable argument)
    (failed : skipArguments argument input = .error fault) : fault.FoundIn input.val := by
  fun_induction skipArguments argument input with
  | case1 input fault' stopped =>
    cases failed
    exact traceable.fault stopped
  | case2 => cases failed; exact .ended
  | case3 input tree placed behind shorter took within comma ih =>
    exact (ih failed).of_suffix ((List.suffix_cons _ _).trans (traceable.rest took))
  | case4 => cases failed
  | case5 input tree placed behind shorter took within notComma notClosing =>
    cases failed
    exact .unseparated (mem_tail_of_suffix (traceable.rest took) shorter)

theorem callRest_fault (below : ∀ parser ∈ deeper, Traceable parser) {opened : Nat}
    (failed : callRest deeper opened input = .error fault) :
    fault.FoundIn (⟨.symbol .leftParen, opened⟩ :: input.val) := by
  unfold callRest at failed
  split at failed
  · cases failed
    exact .tooDeep List.mem_cons_self (.inl rfl)
  · rename_i unary
    split at failed
    · cases failed
    · have traceable := traceable_expression (below unary rfl)
      exact (skipArguments_fault traceable failed).of_suffix (List.suffix_cons _ _)

theorem groupRest_fault (below : ∀ parser ∈ deeper, Traceable parser) {opened : Nat}
    (failed : groupRest deeper opened input = .error fault) :
    fault.FoundIn (⟨.symbol .leftParen, opened⟩ :: input.val) := by
  unfold groupRest at failed
  split at failed
  · cases failed
    exact .tooDeep List.mem_cons_self (.inl rfl)
  · rename_i unary
    have traceable := traceable_expression (below unary rfl)
    split at failed
    · rename_i stopped
      cases failed
      exact (traceable.fault stopped).of_suffix (List.suffix_cons _ _)
    · cases failed
      exact .unclosed List.mem_cons_self
    · rename_i inner placed behind shorter took
      split at failed
      · cases failed
      · cases failed
        have member : placed ∈ input.val := (traceable.rest took).subset List.mem_cons_self
        exact .unexpected (List.mem_cons_of_mem _ member)

theorem signedRest_fault (below : ∀ parser ∈ deeper, Traceable parser) {symbol : Symbol}
    {op : PrefixOp} (written : PrefixOp.ofSymbol? symbol = some op) {position : Nat}
    (failed : signedRest deeper op position input = .error fault) :
    fault.FoundIn (⟨.symbol symbol, position⟩ :: input.val) := by
  unfold signedRest at failed
  split at failed
  · cases failed
    exact .tooDeep List.mem_cons_self (.inr ⟨op, written⟩)
  · rename_i unary
    split at failed
    · rename_i stopped
      cases failed
      exact ((below unary rfl).fault stopped).of_suffix (List.suffix_cons _ _)
    · cases failed

end Nested

theorem unaryOver_fault {deeper : Option (Parser Expr)}
    (below : ∀ parser ∈ deeper, Traceable parser) {input : List Placed} {fault : SourceFault}
    (failed : unaryOver deeper input = .error fault) : fault.FoundIn input := by
  unfold unaryOver at failed
  split at failed
  · cases failed
    exact .ended
  · rename_i lexeme position rest
    split at failed
    · cases failed
    · split at failed
      · split at failed
        · rename_i stopped
          cases failed
          exact (callRest_fault below stopped).of_suffix (List.suffix_cons _ _)
        · cases failed
      · cases failed
    · exact groupRest_fault below failed
    · split at failed
      · rename_i written
        exact signedRest_fault below written failed
      · cases failed
        exact .unexpected List.mem_cons_self
    · cases failed
      exact .unexpected List.mem_cons_self

/-- What is left stands at the end of the input because what was read is derived from a
part at its front. -/
theorem traceable_unary : ∀ room, Traceable (unary room)
  | 0 => {
      rest := fun read => by
        obtain ⟨lexemes, whole, -⟩ := sound_unary 0 ⟨_, read⟩
        exact ⟨lexemes, whole.symm⟩
      fault := unaryOver_fault fun _ member => absurd member (Option.not_mem_none _) }
  | room + 1 => {
      rest := fun read => by
        obtain ⟨lexemes, whole, -⟩ := sound_unary (room + 1) ⟨_, read⟩
        exact ⟨lexemes, whole.symm⟩
      fault := unaryOver_fault fun _ some => by
        cases some
        exact traceable_unary room }

/-- A lexeme list that is not an expression has its fault in itself. -/
theorem foundIn_of_ofLexemes {lexemes : List Placed} {fault : SourceFault}
    (failed : ofLexemes lexemes = .error fault) : fault.FoundIn lexemes := by
  have traceable := traceable_expression (traceable_unary maxNesting)
  unfold ofLexemes at failed
  split at failed
  · rename_i stopped
    cases failed
    exact traceable.fault stopped
  · cases failed
  · rename_i tree placed behind shorter took
    cases failed
    exact .trailing (mem_tail_of_suffix (traceable.rest took) shorter)

/-- An expression that is complete before a lexeme that does not go on with it has its
fault there. -/
theorem ofLexemes_of_trailing {lexemes : List Placed} {tree : Expr}
    (derived : Derives maxNesting .or lexemes tree) {placed : Placed} {rest : List Placed}
    (stops : Stops 6 (placed :: rest)) :
    ofLexemes (lexemes ++ placed :: rest) =
      .error (.trailingLexeme placed.lexeme.shown placed.position) := by
  obtain ⟨shorter, read⟩ := (readAs_of_derives derived).reads (placed :: rest) stops
  simp [ofLexemes, show expression (unary maxNesting) (lexemes ++ placed :: rest) = _ from read]

/-! ## Trees -/

theorem error_of_map {α β : Type} {f : α → β} {result : Except SourceFault α}
    {fault : SourceFault} (failed : result.map f = .error fault) : result = .error fault := by
  cases result with
  | error fault' =>
    cases failed
    rfl
  | ok value => cases failed

theorem formula_binary_eq_error {left right : Expr} {op : BinaryOp} {position : Nat}
    {fault : SourceFault} (failed : (binary left op right position).formula = .error fault) :
    (op.operation? = none ∧ fault = refuse "operator" op.symbol position) ∨
      left.formula = .error fault ∨ right.formula = .error fault := by
  rw [formula] at failed
  split at failed
  · rename_i refused
    cases failed
    exact .inl ⟨refused, rfl⟩
  · split at failed
    · rename_i stopped
      cases failed
      exact .inr (.inl stopped)
    · exact .inr (.inr (error_of_map failed))

theorem symbol_of_prefixOp {symbol : Symbol} {op : PrefixOp}
    (written : PrefixOp.ofSymbol? symbol = some op) : op.symbol = symbol := by
  cases symbol <;> cases written <;> rfl

theorem foundIn_of_literalValue {form : NumberForm} {text : String} {position : Nat}
    {fault : SourceFault} (failed : literalValue form text position = .error fault) :
    fault.FoundIn [⟨.number form text, position⟩] := by
  have refused := failed
  unfold literalValue at failed
  split at failed
  · split at failed
    · cases failed
    · cases failed
      exact .outOfRange List.mem_cons_self refused
  · split at failed
    · cases failed
    · cases failed
      exact .outOfRange List.mem_cons_self refused
  · cases failed
    exact .notDecimal List.mem_cons_self

/-- A tree that asks for what is not computed asks for it with one of the lexemes that it
was derived from. -/
theorem foundIn_of_formula {room : Nat} {category : Category} {lexemes : List Placed}
    {tree : Expr} (derived : Derives room category lexemes tree) {fault : SourceFault}
    (failed : tree.formula = .error fault) : fault.FoundIn lexemes := by
  induction derived with
  | tighter _ _ ih => exact ih failed
  | @binary room category next before after left right symbol op position _ _ written _ _
      ihLeft ihRight =>
    obtain rfl := BinaryOp.symbol_of_ofSymbol? written
    have leftPart : before <:+: before ++ ⟨.symbol op.symbol, position⟩ :: after :=
      (List.prefix_append _ _).isInfix
    have rightPart : after <:+ before ++ ⟨.symbol op.symbol, position⟩ :: after :=
      (List.suffix_cons _ _).trans (List.suffix_append _ _)
    rcases formula_binary_eq_error failed with ⟨refused, rfl⟩ | stopped | stopped
    · exact .operator (List.mem_append_right _ List.mem_cons_self) refused
    · exact (ihLeft stopped).widen leftPart
    · exact (ihRight stopped).of_suffix rightPart
  | signed position written _ _ =>
    obtain rfl := symbol_of_prefixOp written
    cases failed
    exact .signed List.mem_cons_self
  | literal form text position =>
    exact foundIn_of_literalValue (error_of_map failed)
  | name text position =>
    cases failed
    exact .name List.mem_cons_self
  | @group room lexemes inner position closing _ ih =>
    have part : lexemes <:+:
        ⟨.symbol .leftParen, position⟩ :: (lexemes ++ [⟨.symbol .rightParen, closing⟩]) :=
      (List.prefix_append _ _).isInfix.trans (List.suffix_cons _ _).isInfix
    exact (ih (error_of_map failed)).widen part
  | call callee arguments position opening closing _ _ _ =>
    cases failed
    exact .call List.mem_cons_self

/-! ## Texts -/

/-- What does not compile has no tokens in reading order. -/
theorem readingOrder_of_compile {source : String} {fault : SourceFault}
    (refused : Program.compile source = .error fault) : readingOrder source = .error fault := by
  cases read : readingOrder source with
  | error fault' => simpa [Program.compile, read, bind, Except.bind] using refused
  | ok tokens => simp [Program.compile, read, bind, Except.bind, pure, Except.pure] at refused

/-- A text is refused by the scanner, by the parser, or on the walk through its tree. -/
theorem stage_of_readingOrder {source : String} {fault : SourceFault}
    (failed : readingOrder source = .error fault) :
    Lexeme.scan source = .error fault ∨
      ∃ lexemes, Lexeme.scan source = .ok lexemes ∧
        (ofLexemes lexemes = .error fault ∨
          ∃ tree, ofLexemes lexemes = .ok tree ∧ tree.inOrder = .error fault) := by
  cases scanned : Lexeme.scan source with
  | error fault' =>
    have same : fault' = fault := by
      simpa [readingOrder, parse, scanned, bind, Except.bind] using failed
    exact .inl (congrArg Except.error same)
  | ok lexemes =>
    refine .inr ⟨lexemes, rfl, ?_⟩
    have parsed := parse_eq_ofLexemes scanned
    cases read : ofLexemes lexemes with
    | error fault' =>
      have same : fault' = fault := by
        simpa [readingOrder, parsed, read, bind, Except.bind] using failed
      exact .inl (congrArg Except.error same)
    | ok tree =>
      exact .inr ⟨tree, rfl, by simpa [readingOrder, parsed, read, bind, Except.bind] using failed⟩

/-- What the parser refuses in lexemes, or the walk in their tree, is found in them. -/
theorem foundIn_of_refused {lexemes : List Placed} {fault : SourceFault}
    (refused : ofLexemes lexemes = .error fault ∨
      ∃ tree, ofLexemes lexemes = .ok tree ∧ tree.inOrder = .error fault) :
    fault.FoundIn lexemes := by
  rcases refused with stopped | ⟨tree, read, walked⟩
  · exact foundIn_of_ofLexemes stopped
  · rw [inOrder_eq] at walked
    exact foundIn_of_formula ((ofLexemes_eq_ok_iff lexemes tree).mp read) (error_of_map walked)

/-- Whatever an expression's text is refused for is the first character that starts no
lexeme, or is found in its lexemes. -/
theorem readingOrder_eq_error {source : String} {fault : SourceFault}
    (failed : readingOrder source = .error fault) :
    (∃ before c after, source.toList = before ++ c :: after ∧
        fault = .strayCharacter (String.singleton c) before.length) ∨
      ∃ lexemes, Lexeme.scan source = .ok lexemes ∧ fault.FoundIn lexemes := by
  rcases stage_of_readingOrder failed with unscanned | ⟨lexemes, scanned, refused⟩
  · exact .inl (Lexeme.scan_eq_error unscanned)
  · exact .inr ⟨lexemes, scanned, foundIn_of_refused refused⟩

end Expr
end Reckon
